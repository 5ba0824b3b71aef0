import LedgerZcash.Lib.Trace
import Mathlib.Data.List.Sort
import Mathlib.Tactic

/-!
# Pipelines of bounded width

Jobs are started in order, at most `width` of them are in flight, and any of those in flight
may complete next.  What a job answers is collected in the order of completion.  Whatever that
order is, nothing is lost and nothing is answered twice (`perm_of_finished`), a run never gets
stuck and its length is bounded (`exists_finished`, `length_run`); when the answers carry the
positions of their jobs, sorting restores the order of the jobs (`inOrder_of_finished`).
-/

namespace LedgerZcash.Pipeline

open Trace

universe u v

variable {α : Type u} {β : Type v}

structure State (α : Type u) (β : Type v) where
  /-- Jobs not started yet, in order. -/
  waiting : List α
  /-- Jobs in flight. -/
  running : List α
  /-- Answers, in the order of completion. -/
  done : List β

/-- All jobs wait. -/
def State.init (jobs : List α) : State α β := ⟨jobs, [], []⟩

/-- No job is left. -/
def State.Finished (s : State α β) : Prop := s.waiting = [] ∧ s.running = []

/-- The steps still to be made: a waiting job takes two, one in flight takes one. -/
def State.stepsLeft (s : State α β) : Nat := 2 * s.waiting.length + s.running.length

inductive Event (α : Type u) where
  | start (job : α)
  | complete (job : α)

/-- The first waiting job is started when there is room; any job in flight completes. -/
inductive Step (width : Nat) (f : α → β) : State α β → Event α → State α β → Prop
  | start {job : α} {waiting running : List α} {done : List β} (hroom : running.length < width) :
      Step width f ⟨job :: waiting, running, done⟩ (.start job) ⟨waiting, running ++ [job], done⟩
  | complete (before : List α) {job : α} {waiting after : List α} {done : List β} :
      Step width f ⟨waiting, before ++ job :: after, done⟩ (.complete job)
        ⟨waiting, before ++ after, done ++ [f job]⟩

variable {width : Nat} {f : α → β} {jobs : List α} {s s' : State α β} {e : Event α}
  {tr : List (Event α)}

/-! ## What a step keeps -/

/-- The answers given, with those still to come. -/
def State.answers (f : α → β) (s : State α β) : List β :=
  s.done ++ (s.running ++ s.waiting).map f

theorem Step.answers_perm (h : Step width f s e s') : (s'.answers f).Perm (s.answers f) := by
  cases h with
  | start hroom =>
      simp only [State.answers, List.append_assoc, List.singleton_append]
      exact .refl _
  | complete before =>
      simp only [State.answers, List.map_append, List.map_cons, List.append_assoc,
        List.singleton_append]
      exact List.Perm.append_left _ List.perm_middle.symm

theorem Step.running_le (h : Step width f s e s') (hs : s.running.length ≤ width) :
    s'.running.length ≤ width := by
  cases h with
  | start hroom =>
      rw [List.length_append]
      exact hroom
  | complete =>
      rw [List.length_append, List.length_cons] at hs
      rw [List.length_append]
      exact Nat.le_of_succ_le hs

/-- Each step is one of the steps left. -/
theorem Step.stepsLeft_eq (h : Step width f s e s') : s'.stepsLeft + 1 = s.stepsLeft := by
  cases h with
  | start =>
      simp only [State.stepsLeft, List.length_append, List.length_cons, List.length_nil]
      omega
  | complete =>
      simp only [State.stepsLeft, List.length_append, List.length_cons]
      omega

/-- A pipeline with room for one job does not get stuck. -/
theorem exists_step (hwidth : 0 < width) (f : α → β) (h : ¬s.Finished) :
    ∃ e s', Step width f s e s' := by
  obtain ⟨waiting, running, done⟩ := s
  cases running with
  | cons job after => exact ⟨_, _, .complete []⟩
  | nil =>
      cases waiting with
      | cons job waiting => exact ⟨_, _, .start hwidth⟩
      | nil => exact absurd ⟨rfl, rfl⟩ h

/-! ## What a run keeps -/

/-- Every job is answered at most once, and none is dropped. -/
theorem answers_perm (h : Run (Step width f) (.init jobs) tr s) :
    (s.answers f).Perm (jobs.map f) :=
  h.invariant (I := fun _ s ↦ (s.answers f).Perm (jobs.map f)) (.refl _)
    fun _ _ _ _ _ hperm hstep ↦ hstep.answers_perm.trans hperm

/-- No more than `width` jobs are in flight. -/
theorem running_le (h : Run (Step width f) (.init jobs) tr s) : s.running.length ≤ width :=
  h.invariant (I := fun _ s ↦ s.running.length ≤ width) (Nat.zero_le _)
    fun _ _ _ _ _ hle hstep ↦ hstep.running_le hle

/-- A finished run has answered each job once. -/
theorem perm_of_finished (h : Run (Step width f) (.init jobs) tr s) (hs : s.Finished) :
    s.done.Perm (jobs.map f) := by
  have hperm := answers_perm h
  rwa [State.answers, hs.1, hs.2, List.append_nil, List.map_nil, List.append_nil] at hperm

/-- Whatever the steps made so far, the run can be finished. -/
theorem exists_finished (hwidth : 0 < width) (f : α → β) (s : State α β) :
    ∃ tr s', Run (Step width f) s tr s' ∧ s'.Finished := by
  generalize hn : s.stepsLeft = n
  induction n generalizing s with
  | zero =>
      refine ⟨[], s, .nil, ?_⟩
      rw [State.stepsLeft] at hn
      exact ⟨List.length_eq_zero_iff.mp (by omega), List.length_eq_zero_iff.mp (by omega)⟩
  | succ n ih =>
      by_cases hs : s.Finished
      · exact ⟨[], s, .nil, hs⟩
      · obtain ⟨e, s', hstep⟩ := exists_step hwidth f hs
        obtain ⟨tr, s'', hrun, hfin⟩ := ih s' (by have := hstep.stepsLeft_eq; omega)
        exact ⟨e :: tr, s'', hrun.cons hstep, hfin⟩

/-! ## Positions -/

/-- The answers sorted by their positions. -/
def inOrder (l : List (Nat × β)) : List β := (l.insertionSort fun a b ↦ a.1 ≤ b.1).map Prod.snd

/-- Answers that carry the positions of a list are sorted into that list. -/
theorem inOrder_of_perm {l : List (Nat × β)} {answers : List β}
    (h : l.Perm (answers.zipIdx.map Prod.swap)) : inOrder l = answers := by
  have : Std.Total fun a b : Nat × β ↦ a.1 ≤ b.1 := ⟨fun a b ↦ le_total a.1 b.1⟩
  have : IsTrans (Nat × β) fun a b ↦ a.1 ≤ b.1 := ⟨fun _ _ _ ↦ le_trans⟩
  have hpositions : (answers.zipIdx.map Prod.swap).map Prod.fst = List.range' 0 answers.length := by
    rw [List.map_map]
    exact List.zipIdx_map_snd 0 answers
  have hascending : (answers.zipIdx.map Prod.swap).Pairwise fun a b ↦ a.1 ≤ b.1 := by
    rw [← List.pairwise_map (f := Prod.fst) (R := (· ≤ ·)), hpositions]
    exact List.pairwise_le_range'
  have hnodup : ((answers.zipIdx.map Prod.swap).map Prod.fst).Nodup := by
    rw [hpositions]
    exact List.nodup_range'
  have hsorted : l.insertionSort (fun a b ↦ a.1 ≤ b.1) = answers.zipIdx.map Prod.swap := by
    have hperm := (l.perm_insertionSort fun a b ↦ a.1 ≤ b.1).trans h
    refine List.Perm.eq_of_pairwise (fun a b ha hb hab hba ↦ ?_) (l.pairwise_insertionSort _)
      hascending hperm
    exact List.inj_on_of_nodup_map hnodup (hperm.mem_iff.mp ha) hb (le_antisymm hab hba)
  rw [inOrder, hsorted, List.map_map]
  exact List.zipIdx_map_fst 0 answers

/-- When each job is answered with its position, a finished run has the answers of the jobs in
their order. -/
theorem inOrder_of_finished {answer : α × Nat → β} {tr : List (Event (α × Nat))}
    {s : State (α × Nat) (Nat × β)}
    (h : Run (Step width fun job ↦ (job.2, answer job)) (.init jobs.zipIdx) tr s)
    (hs : s.Finished) : inOrder s.done = jobs.zipIdx.map answer := by
  have hpositions : jobs.zipIdx.map (fun job ↦ (job.2, answer job)) =
      (jobs.zipIdx.map answer).zipIdx.map Prod.swap := by
    apply List.ext_getElem
    · simp only [List.length_map, List.length_zipIdx]
    · intro i _ _
      simp only [List.getElem_map, List.getElem_zipIdx, Prod.swap_prod_mk, Nat.zero_add]
  exact inOrder_of_perm (hpositions ▸ perm_of_finished h hs)

end LedgerZcash.Pipeline
