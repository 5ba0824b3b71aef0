import Mathlib.Data.List.Basic

/-!
# Runs of a labelled step relation

A run from a state is a list of events, oldest first, with the state it ends in.  Runs
compose and split where their events do; an invariant of a run may speak of its events and
of its last state together (`Run.invariant`).
-/

namespace LedgerZcash.Trace

universe u v

variable {σ : Type u} {ε : Type v} {step : σ → ε → σ → Prop}

/-- The events of a run from `s₀`, and the state it ends in. -/
inductive Run (step : σ → ε → σ → Prop) (s₀ : σ) : List ε → σ → Prop
  | nil : Run step s₀ [] s₀
  | snoc {tr : List ε} {s s' : σ} {e : ε} (h : Run step s₀ tr s) (hstep : step s e s') :
      Run step s₀ (tr ++ [e]) s'

namespace Run

variable {s₀ s s' s'' : σ} {tr tr' : List ε} {e : ε}

theorem single (h : step s e s') : Run step s [e] s' := .snoc .nil h

theorem trans (h : Run step s₀ tr s) (h' : Run step s tr' s') : Run step s₀ (tr ++ tr') s' := by
  induction h' with
  | nil => rwa [List.append_nil]
  | snoc _ hstep ih =>
      rw [← List.append_assoc]
      exact ih.snoc hstep

theorem cons (h : step s e s') (h' : Run step s' tr s'') : Run step s (e :: tr) s'' :=
  (single h).trans h'

/-- A run splits wherever its events do. -/
theorem split (h : Run step s₀ (tr ++ tr') s') : ∃ s, Run step s₀ tr s ∧ Run step s tr' s' := by
  generalize htrace : tr ++ tr' = events at h
  induction h generalizing tr' with
  | nil =>
      obtain ⟨rfl, rfl⟩ := List.append_eq_nil_iff.mp htrace
      exact ⟨s₀, .nil, .nil⟩
  | @snoc init t t' a hinit hstep ih =>
      rcases List.eq_nil_or_concat tr' with rfl | ⟨tail, b, rfl⟩
      · rw [List.append_nil] at htrace
        exact ⟨t', htrace ▸ hinit.snoc hstep, .nil⟩
      · rw [List.concat_eq_append, ← List.append_assoc] at htrace
        obtain ⟨hinit', hb⟩ := List.append_inj' htrace rfl
        cases hb
        obtain ⟨s, hs, hs'⟩ := ih hinit'
        rw [List.concat_eq_append]
        exact ⟨s, hs, hs'.snoc hstep⟩

/-- A run begins with its first event. -/
theorem uncons (h : Run step s (e :: tr) s'') : ∃ s', step s e s' ∧ Run step s' tr s'' := by
  obtain ⟨s', hfirst, hrest⟩ := split (show Run step s ([e] ++ tr) s'' from h)
  generalize htrace : [e] = events at hfirst
  cases hfirst with
  | nil => cases htrace
  | @snoc init t _ a hinit hstep =>
      obtain ⟨rfl, hlast⟩ := List.append_inj' (htrace.symm.trans (List.nil_append _).symm) rfl
      cases hlast
      generalize hnil : ([] : List ε) = none at hinit
      cases hinit with
      | nil => exact ⟨s', hstep, hrest⟩
      | snoc _ _ => exact absurd hnil.symm (List.append_ne_nil_of_right_ne_nil _ (by simp))

/-- What holds at the start, and is kept by each step, holds of every run. -/
theorem invariant {I : List ε → σ → Prop} (hinit : I [] s₀)
    (hkeep : ∀ tr s e s', Run step s₀ tr s → I tr s → step s e s' → I (tr ++ [e]) s')
    (h : Run step s₀ tr s) : I tr s := by
  induction h with
  | nil => exact hinit
  | snoc hrun hstep ih => exact hkeep _ _ _ _ hrun ih hstep

end Run

end LedgerZcash.Trace
