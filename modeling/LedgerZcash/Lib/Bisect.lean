import Mathlib.Tactic

/-!
# Ranges cut in half

A queue of inclusive ranges of natural numbers is processed front to back.  A range whose
attempt fails is replaced by its two halves; the ranges that remain are the `leaves` of
the failure pattern.  Whatever the pattern, they cut the original range (`Cuts`) into
consecutive, non-empty ranges.
-/

namespace LedgerZcash.Bisect

/-- Non-empty ranges that follow each other from `s` to `e`, with no gap and no overlap. -/
inductive Cuts : Nat → Nat → List (Nat × Nat) → Prop where
  | last {s e : Nat} : s ≤ e → Cuts s e [(s, e)]
  | cut {s m e : Nat} {rest : List (Nat × Nat)} : s ≤ m → m < e → Cuts (m + 1) e rest →
      Cuts s e ((s, m) :: rest)

namespace Cuts

variable {s e : Nat} {ranges : List (Nat × Nat)}

theorem le (h : Cuts s e ranges) : s ≤ e := by
  cases h with
  | last h => exact h
  | cut hs he _ => exact hs.trans he.le

theorem cons_iff {a b : Nat} {rest : List (Nat × Nat)} :
    Cuts s e ((a, b) :: rest) ↔
      a = s ∧ a ≤ b ∧ (rest = [] ∧ b = e ∨ b < e ∧ Cuts (b + 1) e rest) := by
  constructor
  · intro h
    cases h with
    | last h => exact ⟨rfl, h, Or.inl ⟨rfl, rfl⟩⟩
    | cut hs he hrest => exact ⟨rfl, hs, Or.inr ⟨he, hrest⟩⟩
  · rintro ⟨rfl, hab, ⟨rfl, rfl⟩ | ⟨hb, hrest⟩⟩
    · exact .last hab
    · exact .cut hab hb hrest

theorem ne_nil (h : Cuts s e ranges) : ranges ≠ [] := by
  cases h <;> exact List.cons_ne_nil _ _

/-- Every range lies inside. -/
theorem bounds (h : Cuts s e ranges) {r : Nat × Nat} (hr : r ∈ ranges) :
    s ≤ r.1 ∧ r.1 ≤ r.2 ∧ r.2 ≤ e := by
  induction h with
  | last h =>
      cases List.mem_singleton.mp hr
      exact ⟨le_rfl, h, le_rfl⟩
  | cut hs he _ ih =>
      rcases List.mem_cons.mp hr with rfl | hr
      · exact ⟨le_rfl, hs, he.le⟩
      · obtain ⟨h1, h2, h3⟩ := ih hr
        exact ⟨by omega, h2, h3⟩

/-- Every number lies in some range. -/
theorem exists_mem (h : Cuts s e ranges) {n : Nat} (hs : s ≤ n) (he : n ≤ e) :
    ∃ r ∈ ranges, r.1 ≤ n ∧ n ≤ r.2 := by
  induction h with
  | last _ => exact ⟨_, List.mem_singleton_self _, hs, he⟩
  | @cut s m e rest _ _ _ ih =>
      by_cases hm : n ≤ m
      · exact ⟨_, List.mem_cons_self, hs, hm⟩
      · obtain ⟨r, hr, h⟩ := ih (by omega) he
        exact ⟨r, List.mem_cons_of_mem _ hr, h⟩

/-- Two ranges that share a number are the same. -/
theorem unique (h : Cuts s e ranges) {r r' : Nat × Nat} (hr : r ∈ ranges) (hr' : r' ∈ ranges)
    {n : Nat} (h1 : r.1 ≤ n) (h2 : n ≤ r.2) (h1' : r'.1 ≤ n) (h2' : n ≤ r'.2) : r = r' := by
  induction h with
  | last _ => rw [List.mem_singleton.mp hr, List.mem_singleton.mp hr']
  | @cut s m e rest hs he hrest ih =>
      rcases List.mem_cons.mp hr with heq | hr
      · rcases List.mem_cons.mp hr' with heq' | hr'
        · rw [heq, heq']
        · have hb := (hrest.bounds hr').1
          have hn : n ≤ m := by simpa [heq] using h2
          omega
      · rcases List.mem_cons.mp hr' with heq' | hr'
        · have hb := (hrest.bounds hr).1
          have hn : n ≤ m := by simpa [heq'] using h2'
          omega
        · exact ih hr hr'

/-- The ranges are ascending. -/
theorem pairwise (h : Cuts s e ranges) : ranges.Pairwise fun r r' ↦ r.2 < r'.1 := by
  induction h with
  | last _ => exact List.pairwise_singleton _ _
  | cut _ _ hrest ih =>
      exact List.pairwise_cons.mpr ⟨fun r hr ↦ Nat.lt_of_succ_le (hrest.bounds hr).1, ih⟩

/-- The ranges have as many numbers as the whole. -/
theorem sum_lengths (h : Cuts s e ranges) :
    (ranges.map fun r ↦ r.2 - r.1 + 1).sum = e - s + 1 := by
  induction h with
  | last _ => simp
  | cut hs he hrest ih =>
      rw [List.map_cons, List.sum_cons, ih]
      omega

/-- Read off one after the other, the ranges list the numbers of the whole, in order. -/
theorem flatMap_range' (h : Cuts s e ranges) :
    ranges.flatMap (fun r ↦ List.range' r.1 (r.2 + 1 - r.1)) = List.range' s (e + 1 - s) := by
  induction h with
  | last _ => rw [List.flatMap_singleton]
  | @cut s m e rest hs he _ ih =>
      have hlen : e + 1 - s = m + 1 - s + (e + 1 - (m + 1)) := by omega
      rw [List.flatMap_cons, ih, hlen, ← List.range'_append_1]
      congr 2
      omega

/-- Each range begins right after the one before. -/
theorem isChain (h : Cuts s e ranges) : ranges.IsChain fun r r' ↦ r'.1 = r.2 + 1 := by
  induction h with
  | last _ => exact .singleton _
  | cut _ _ hrest ih =>
      cases hrest with
      | last _ => exact .cons_cons rfl ih
      | cut _ _ _ => exact .cons_cons rfl ih

/-- Two cuts that follow each other. -/
theorem append {m : Nat} {rest : List (Nat × Nat)} (h : Cuts s m ranges)
    (hrest : Cuts (m + 1) e rest) : Cuts s e (ranges ++ rest) := by
  induction h with
  | last hs => exact .cut hs hrest.le hrest
  | cut hs hm _ ih => exact .cut hs (hm.trans hrest.le) (ih hrest)

/-- Cutting each of the ranges of a cut. -/
theorem flatMap {α : Type*} {l : List α} {r : α → Nat × Nat} {f : α → List (Nat × Nat)}
    (h : Cuts s e (l.map r)) (hf : ∀ a ∈ l, Cuts (r a).1 (r a).2 (f a)) :
    Cuts s e (l.flatMap f) := by
  induction l generalizing s with
  | nil => exact absurd rfl h.ne_nil
  | cons a l ih =>
      obtain ⟨ha, hl⟩ := List.forall_mem_cons.mp hf
      obtain ⟨rfl, -, ⟨hnil, rfl⟩ | ⟨-, hrest⟩⟩ := cons_iff.mp h
      · rw [List.map_eq_nil_iff] at hnil
        subst hnil
        simpa using ha
      · exact ha.append (ih hrest hl)

/-- Cutting one of the ranges keeps the cut. -/
theorem split {pre post : List (Nat × Nat)} {a m b : Nat}
    (h : Cuts s e (pre ++ (a, b) :: post)) (ha : a ≤ m) (hb : m < b) :
    Cuts s e (pre ++ (a, m) :: (m + 1, b) :: post) := by
  induction pre generalizing s with
  | nil =>
      cases h with
      | last h => exact .cut ha hb (.last hb)
      | cut hs he hrest => exact .cut ha (hb.trans he) (.cut hb he hrest)
  | cons r pre ih =>
      obtain ⟨r1, r2⟩ := r
      generalize hl : pre ++ (a, b) :: post = l at h ih
      rw [List.cons_append, hl] at h
      cases h with
      | last h => simp at hl
      | cut hs he hrest => exact .cut hs he (ih (hl ▸ hrest))

end Cuts

/-- Where a range of more than one number is cut. -/
def mid (s e : Nat) : Nat := s + (e - s + 1) / 2 - 1

theorem le_mid {s e : Nat} (h : s < e) : s ≤ mid s e := by
  unfold mid
  omega

theorem mid_lt {s e : Nat} (h : s < e) : mid s e < e := by
  unfold mid
  omega

/-- The ranges that are left when the `n`-th attempt, on the range at the front of the
queue, fails or not as the pattern says. -/
def leaves (fails : Nat → Nat → Nat → Bool) : Nat → List (Nat × Nat) → List (Nat × Nat)
  | _, [] => []
  | n, (s, e) :: queue =>
      if fails n s e ∧ s < e then
        leaves fails (n + 1) ((s, mid s e) :: (mid s e + 1, e) :: queue)
      else (s, e) :: leaves fails (n + 1) queue
termination_by _ queue => (queue.map fun r ↦ 2 * (r.2 - r.1) + 1).sum
decreasing_by
  · have h1 := le_mid ‹fails n s e ∧ s < e›.2
    have h2 := mid_lt ‹fails n s e ∧ s < e›.2
    simp only [List.map_cons, List.sum_cons]
    omega
  · simp only [List.map_cons, List.sum_cons]
    omega

/-- The attempts that fail on a range and have it cut, with their numbers. -/
def cutAttempts (fails : Nat → Nat → Nat → Bool) : Nat → List (Nat × Nat) → List (Nat × Nat × Nat)
  | _, [] => []
  | n, (s, e) :: queue =>
      if fails n s e ∧ s < e then
        (n, s, e) :: cutAttempts fails (n + 1) ((s, mid s e) :: (mid s e + 1, e) :: queue)
      else cutAttempts fails (n + 1) queue
termination_by _ queue => (queue.map fun r ↦ 2 * (r.2 - r.1) + 1).sum
decreasing_by
  · have h1 := le_mid ‹fails n s e ∧ s < e›.2
    have h2 := mid_lt ‹fails n s e ∧ s < e›.2
    simp only [List.map_cons, List.sum_cons]
    omega
  · simp only [List.map_cons, List.sum_cons]
    omega

/-- The leaves of a cut are a cut. -/
theorem cuts_leaves {fails : Nat → Nat → Nat → Bool} {s e n : Nat} {pre queue : List (Nat × Nat)}
    (h : Cuts s e (pre ++ queue)) : Cuts s e (pre ++ leaves fails n queue) := by
  induction n, queue using leaves.induct fails generalizing pre with
  | case1 => rwa [leaves]
  | case2 n a b queue hf ih =>
      rw [leaves, if_pos hf]
      exact ih (h.split (le_mid hf.2) (mid_lt hf.2))
  | case3 n a b queue hf ih =>
      rw [leaves, if_neg hf]
      have h' : Cuts s e ((pre ++ [(a, b)]) ++ queue) := by simpa using h
      simpa using ih h'

end LedgerZcash.Bisect
