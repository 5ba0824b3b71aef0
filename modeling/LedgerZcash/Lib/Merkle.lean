import Mathlib.Tactic

/-!
# Full Merkle trees

The nodes of a level are combined in pairs into those of the next level, with a function that
may depend on the level.  Level by level from `2 ^ k` leaves on, this ends after `k` rounds with
one node (`rounds_eq_root`): the root of the recursive definition, which halves the leaves and
combines the roots of the halves.
-/

namespace LedgerZcash.Merkle

universe u

variable {H : Type u}

/-- The nodes two by two, as `(pair[0], pair[1])`; there is no `pair[1]` when one is left over. -/
def pairUp (f : H → H → H) : List H → Option (List H)
  | [] => some []
  | [_] => none
  | left :: right :: nodes => (pairUp f nodes).map (f left right :: ·)

variable (combine : Nat → H → H → H)

/-- The nodes after the first `k` levels. -/
def rounds (k : Nat) (nodes : List H) : Option (List H) :=
  (List.range k).foldlM (fun nodes l ↦ pairUp (combine l) nodes) nodes

/-- A node at level `k + 1` combines its left and right child, at level `k`. -/
def root : (k : Nat) → (leaves : List H) → leaves.length = 2 ^ k → H
  | 0, leaves, h => leaves.head (List.ne_nil_of_length_pos (h ▸ Nat.one_pos))
  | k + 1, leaves, h =>
      combine k (root k (leaves.take (2 ^ k)) (by rw [List.length_take]; omega))
        (root k (leaves.drop (2 ^ k)) (by rw [List.length_drop]; omega))

/-- The root of a full tree whose leaves are all the same. -/
def uniformRoot (leaf : H) : Nat → H
  | 0 => leaf
  | k + 1 => combine k (uniformRoot leaf k) (uniformRoot leaf k)

variable {combine} {f : H → H → H} {a b x y : List H}

theorem pairUp_append (ha : pairUp f a = some x) (hb : pairUp f b = some y) :
    pairUp f (a ++ b) = some (x ++ y) := by
  induction a using pairUp.induct generalizing x with
  | case1 =>
      cases ha
      exact hb
  | case2 => cases ha
  | case3 left right nodes ih =>
      rw [pairUp, Option.map_eq_some_iff] at ha
      obtain ⟨rest, hrest, rfl⟩ := ha
      show (pairUp f (nodes ++ b)).map (f left right :: ·) = _
      rw [ih hrest, Option.map_some, List.cons_append]

theorem rounds_succ (k : Nat) (nodes : List H) :
    rounds combine (k + 1) nodes = rounds combine k nodes >>= pairUp (combine k) := by
  rw [rounds, List.range_succ, List.foldlM_append]
  refine bind_congr fun nodes ↦ ?_
  rw [List.foldlM_cons]
  exact bind_pure _

/-- Two lists of nodes that pair up by themselves pair up side by side. -/
theorem rounds_append {k : Nat} (ha : rounds combine k a = some x)
    (hb : rounds combine k b = some y) : rounds combine k (a ++ b) = some (x ++ y) := by
  induction k generalizing x y with
  | zero =>
      cases ha
      cases hb
      rfl
  | succ k ih =>
      rw [rounds_succ, Option.bind_eq_bind, Option.bind_eq_some_iff] at ha hb
      obtain ⟨x', hx', hx⟩ := ha
      obtain ⟨y', hy', hy⟩ := hb
      rw [rounds_succ, ih hx' hy']
      exact pairUp_append hx hy

/-- The levels of a full tree end in its root. -/
theorem rounds_eq_root {k : Nat} {leaves : List H} (h : leaves.length = 2 ^ k) :
    rounds combine k leaves = some [root combine k leaves h] := by
  induction k generalizing leaves with
  | zero =>
      obtain ⟨leaf, rfl⟩ := List.length_eq_one_iff.mp h
      rfl
  | succ k ih =>
      have hleft : (leaves.take (2 ^ k)).length = 2 ^ k := by rw [List.length_take]; omega
      have hright : (leaves.drop (2 ^ k)).length = 2 ^ k := by rw [List.length_drop]; omega
      have hhalves := rounds_append (ih hleft) (ih hright)
      rw [List.take_append_drop] at hhalves
      rw [rounds_succ, hhalves]
      rfl

end LedgerZcash.Merkle
