import Mathlib.Data.List.Infix

/-!
# Words in a text

When a word that occurs in two texts put together occurs in one of them already.  A letter
that the word lacks keeps it on one side (`infix_append_cons_iff`); a letter of the word that
the second text lacks keeps what comes before it in the first (`not_infix_append`).
-/

namespace LedgerZcash.Words

universe u

variable {α : Type u} {w rest a b : List α} {x : α}

/-- A word lies on one side of a letter that it does not have. -/
theorem infix_append_cons_iff (hx : x ∉ w) : w <:+: a ++ x :: b ↔ w <:+: a ∨ w <:+: b := by
  constructor
  · intro h
    rcases List.infix_append_iff.mp h with h | h | ⟨l, r, rfl, hl, hr⟩
    · exact .inl h
    · rcases List.infix_cons_iff.mp h with h | h
      · cases w with
        | nil => exact .inl List.nil_infix
        | cons y w =>
            obtain ⟨rfl, -⟩ := List.cons_prefix_cons.mp h
            exact absurd List.mem_cons_self hx
      · exact .inr h
    · cases r with
      | nil => exact .inl (by simpa using hl.isInfix)
      | cons y r =>
          obtain ⟨rfl, -⟩ := List.cons_prefix_cons.mp hr
          exact absurd (List.mem_append_right l List.mem_cons_self) hx
  · rintro (h | h)
    · exact List.infix_append_of_infix_left h
    · exact List.infix_append_of_infix_right (List.infix_cons h)

/-- A word whose last letter is not in the second text lies in the first. -/
theorem infix_of_append (hx : x ∉ b) (h : w ++ [x] <:+: a ++ b) : w ++ [x] <:+: a := by
  rcases List.infix_append_iff.mp h with h | h | ⟨l, r, heq, hl, hr⟩
  · exact h
  · exact absurd (h.subset (List.mem_append_right w (List.mem_singleton.mpr rfl))) hx
  · rcases List.eq_nil_or_concat r with rfl | ⟨r, y, rfl⟩
    · rw [heq, List.append_nil]
      exact hl.isInfix
    · rw [List.concat_eq_append] at heq hr
      rw [← List.append_assoc] at heq
      obtain ⟨-, hy⟩ := List.append_inj' heq rfl
      cases hy
      exact absurd (hr.subset (List.mem_append_right r (List.mem_singleton.mpr rfl))) hx

/-- A word does not occur when its beginning, up to a letter that the second text lacks, does
not occur in the first. -/
theorem not_infix_append (hx : x ∉ b) (hw : ¬w ++ [x] <:+: a) : ¬w ++ x :: rest <:+: a ++ b := by
  intro h
  rw [← List.singleton_append, ← List.append_assoc] at h
  exact hw (infix_of_append hx (List.infix_append_left.trans h))

end LedgerZcash.Words
