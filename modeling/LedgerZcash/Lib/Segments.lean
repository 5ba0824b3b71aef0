import Mathlib.Tactic
import Mathlib.Data.List.Flatten

/-!
# Sequences cut into segments

A long sequence that arrives as a list of segments: the concatenation is `flatten`,
and `offset segs n` is the absolute index at which segment `n` starts.  The rules say
how a run of whole segments sits inside the concatenation, whichever way the index is
counted — forwards from a segment's start (`flatten_slice`, `getElem?_flatten`) or
backwards from its end (`offset_succ`).  Where the segments carry an ascending key, a
range of keys is a run of segments (`filter_between_eq`).
-/

namespace LedgerZcash.Segments

universe u v

variable {α : Type u} {β : Type v}

/-- The absolute index at which segment `n` starts. -/
def offset (segs : List (List α)) (n : Nat) : Nat := (segs.take n).flatten.length

theorem offset_eq_sum (segs : List (List α)) (n : Nat) :
    offset segs n = ((segs.map List.length).take n).sum := by
  rw [offset, List.length_flatten, List.map_take]

theorem offset_of_length_le {segs : List (List α)} {n : Nat} (h : segs.length ≤ n) :
    offset segs n = segs.flatten.length := by
  rw [offset, List.take_of_length_le h]

/-- A segment ends where the next one starts. -/
theorem offset_succ {segs : List (List α)} {n : Nat} {s : List α} (h : segs[n]? = some s) :
    offset segs (n + 1) = offset segs n + s.length := by
  rw [offset, List.take_add_one, h]
  simp [offset]

theorem offset_mono (segs : List (List α)) : Monotone (offset segs) := by
  refine monotone_nat_of_le_succ fun n ↦ ?_
  cases h : segs[n]? with
  | none =>
      have hn : segs.length ≤ n := List.getElem?_eq_none_iff.mp h
      rw [offset_of_length_le hn, offset_of_length_le (Nat.le_succ_of_le hn)]
  | some s =>
      rw [offset_succ h]
      exact Nat.le_add_right _ _

/-- Cutting the concatenation at a segment's start keeps the segments before it. -/
theorem take_offset (segs : List (List α)) (n : Nat) :
    segs.flatten.take (offset segs n) = (segs.take n).flatten := by
  rw [offset_eq_sum]
  exact List.take_sum_flatten segs n

theorem drop_offset (segs : List (List α)) (n : Nat) :
    segs.flatten.drop (offset segs n) = (segs.drop n).flatten := by
  rw [offset_eq_sum]
  exact List.drop_sum_flatten segs n

theorem offset_take {segs : List (List α)} {m n : Nat} (h : m ≤ n) :
    offset (segs.take n) m = offset segs m := by
  rw [offset, List.take_take, min_eq_left h, offset]

/-- The segments from `i` up to `j` are one slice of the concatenation. -/
theorem flatten_slice (segs : List (List α)) {i j : Nat} (h : i ≤ j) :
    ((segs.take j).drop i).flatten =
      (segs.flatten.take (offset segs j)).drop (offset segs i) := by
  rw [take_offset, ← offset_take h, drop_offset]

/-- A slice of a slice is a slice. -/
theorem slice_slice (l : List α) {b e lo hi : Nat} (h : b + hi ≤ e) :
    ((((l.take e).drop b).take hi).drop lo) = (l.take (b + hi)).drop (b + lo) := by
  rw [List.take_drop, List.take_take, min_eq_left h, List.drop_drop]

/-- Element `k` of segment `n` is element `offset n + k` of the concatenation. -/
theorem getElem?_flatten {segs : List (List α)} {n k : Nat} {s : List α}
    (h : segs[n]? = some s) (hk : k < s.length) :
    segs.flatten[offset segs n + k]? = s[k]? := by
  rw [← List.getElem?_drop, drop_offset]
  have hn : n < segs.length := (List.getElem?_eq_some_iff.mp h).1
  have hs : segs.drop n = s :: segs.drop (n + 1) := by
    rw [List.drop_eq_getElem_cons hn, (List.getElem?_eq_some_iff.mp h).2]
  rw [hs, List.flatten_cons, List.getElem?_append_left hk]

/-! ## Runs of an ascending key -/

section Key

variable (key : α → Nat) {l : List α}

/-- How many elements have a key up to `h`. -/
def upTo (l : List α) (h : Nat) : Nat := l.countP fun a ↦ key a ≤ h

theorem upTo_mono (l : List α) : Monotone (upTo key l) := by
  intro h h' hle
  exact List.countP_mono_left fun a _ ha ↦ by
    rw [decide_eq_true_eq] at ha ⊢
    exact ha.trans hle

variable {key} (hl : l.Pairwise fun a b ↦ key a < key b) (h : Nat)
include hl

/-- Up to a key: a prefix. -/
theorem filter_le_eq_take : (l.filter fun a ↦ key a ≤ h) = l.take (upTo key l h) := by
  induction l with
  | nil => rfl
  | cons a l ih =>
      obtain ⟨ha, hl⟩ := List.pairwise_cons.mp hl
      by_cases hk : key a ≤ h
      · rw [upTo, List.countP_cons_of_pos (by simpa using hk), List.take_succ_cons, ← upTo, ← ih hl,
          List.filter_cons_of_pos (by simpa using hk)]
      · have hnone : ∀ b ∈ a :: l, ¬ key b ≤ h := by
          intro b hb
          rcases List.mem_cons.mp hb with rfl | hb
          · exact hk
          · have := ha b hb
            omega
        rw [upTo, List.countP_eq_zero.mpr (by simpa using hnone), List.take_zero,
          List.filter_eq_nil_iff.mpr (by simpa using hnone)]

/-- Above a key: what the prefix leaves. -/
theorem filter_lt_eq_drop : (l.filter fun a ↦ h < key a) = l.drop (upTo key l h) := by
  induction l with
  | nil => rfl
  | cons a l ih =>
      obtain ⟨ha, hl⟩ := List.pairwise_cons.mp hl
      by_cases hk : key a ≤ h
      · rw [upTo, List.countP_cons_of_pos (by simpa using hk), List.drop_succ_cons, ← upTo, ← ih hl,
          List.filter_cons_of_neg (by simpa using hk)]
      · have hall : ∀ b ∈ a :: l, h < key b := by
          intro b hb
          rcases List.mem_cons.mp hb with rfl | hb
          · omega
          · have := ha b hb
            omega
        rw [upTo, List.countP_eq_zero.mpr (by simpa using hall), List.drop_zero,
          List.filter_eq_self.mpr (by simpa using hall)]

/-- A range of keys is a run of the list. -/
theorem filter_between_eq {s e : Nat} (hs : 0 < s) (hse : s ≤ e + 1) :
    (l.filter fun a ↦ s ≤ key a ∧ key a ≤ e) =
      (l.take (upTo key l e)).drop (upTo key l (s - 1)) := by
  have hcount : upTo key (l.take (upTo key l e)) (s - 1) = upTo key l (s - 1) := by
    rw [← filter_le_eq_take hl, upTo, List.countP_filter, upTo]
    refine List.countP_congr fun a _ ↦ ?_
    simp only [Bool.and_eq_true, decide_eq_true_eq]
    omega
  rw [← hcount, ← filter_lt_eq_drop (hl.sublist (List.take_sublist _ _)), ← filter_le_eq_take hl,
    List.filter_filter]
  refine List.filter_congr fun a _ ↦ ?_
  rw [← Bool.decide_and, decide_eq_decide]
  omega

end Key

end LedgerZcash.Segments
