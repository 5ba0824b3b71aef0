import LedgerZcash.Lib.Merkle

/-!
# Merkle trees over positions

The leaves are a function of the position, and `node l i` is the node with index `i` at
level `l`: it covers the positions from `i * 2 ^ l` up to `(i + 1) * 2 ^ l`.  A tree with
finitely many leaves is `padded` with an empty one, and cutting it at a position is
`truncate`.

A path is the list of the siblings from a node up.  Climbing along the siblings that the tree
has ends in the tree's node (`climb_siblings`); conversely a climb that ends there along any
siblings started at the tree's own node, or met a collision of the hash on the way
(`eq_or_collides_of_climb`).
-/

namespace LedgerZcash.Merkle

universe u

variable {H : Type u} (combine : Nat → H → H → H)

/-- The node with index `i` at a level. -/
def node (leaf : Nat → H) : (level i : Nat) → H
  | 0, i => leaf i
  | l + 1, i => combine l (node leaf l (2 * i)) (node leaf l (2 * i + 1))

/-- Finitely many leaves, with an empty one at every later position. -/
def padded (emptyLeaf : H) (leaves : List H) (i : Nat) : H := leaves.getD i emptyLeaf

/-- The leaves before position `n`, with an empty one from there on. -/
def truncate (emptyLeaf : H) (n : Nat) (leaf : Nat → H) (i : Nat) : H :=
  if i < n then leaf i else emptyLeaf

/-- The index of the other child of a node's parent. -/
def sibling (i : Nat) : Nat := if i % 2 = 0 then i + 1 else i - 1

/-- A node and its sibling, the left child first. -/
def ordered (i : Nat) (hash sibling : H) : H × H :=
  if i % 2 = 0 then (hash, sibling) else (sibling, hash)

/-- The hash of the parent. -/
def parent (level i : Nat) (hash sibling : H) : H :=
  combine level (ordered i hash sibling).1 (ordered i hash sibling).2

/-- The hash reached from a node along the siblings of a path. -/
def climb : (level i : Nat) → H → List H → H
  | _, _, hash, [] => hash
  | l, i, hash, s :: path => climb (l + 1) (i / 2) (parent combine l i hash s) path

/-- The siblings that the tree has on the `d` levels from a node up. -/
def siblings (leaf : Nat → H) : (d level i : Nat) → List H
  | 0, _, _ => []
  | d + 1, l, i => node combine leaf l (sibling i) :: siblings leaf d (l + 1) (i / 2)

/-- On the way up from a node, two different pairs of children have one hash: those met along
the path, and those of the tree. -/
inductive Collides (leaf : Nat → H) : (level i : Nat) → H → List H → Prop
  | here {l i : Nat} {hash s : H} {path : List H}
      (hne : ordered i hash s ≠
        (node combine leaf l (2 * (i / 2)), node combine leaf l (2 * (i / 2) + 1)))
      (heq : parent combine l i hash s = node combine leaf (l + 1) (i / 2)) :
      Collides leaf l i hash (s :: path)
  | above {l i : Nat} {hash s : H} {path : List H}
      (h : Collides leaf (l + 1) (i / 2) (parent combine l i hash s) path) :
      Collides leaf l i hash (s :: path)

variable {combine} {leaf leaf' : Nat → H} {emptyLeaf : H} {l i d n k : Nat} {hash : H}
  {leaves path : List H}

/-! ## Positions -/

/-- Where the children of a node start and end, in terms of the left one. -/
theorem span_succ (l i : Nat) : i * 2 ^ (l + 1) = 2 * i * 2 ^ l ∧
    (2 * i + 1) * 2 ^ l = 2 * i * 2 ^ l + 2 ^ l ∧
    (i + 1) * 2 ^ (l + 1) = 2 * i * 2 ^ l + 2 ^ l + 2 ^ l ∧
    (2 * i + 1 + 1) * 2 ^ l = 2 * i * 2 ^ l + 2 ^ l + 2 ^ l := by
  refine ⟨by ring, by ring, by ring, by ring⟩

theorem node_congr (h : ∀ q, i * 2 ^ l ≤ q → q < (i + 1) * 2 ^ l → leaf q = leaf' q) :
    node combine leaf l i = node combine leaf' l i := by
  induction l generalizing i with
  | zero => exact h i (by omega) (by omega)
  | succ l ih =>
      obtain ⟨hstart, hmid, hend, hend'⟩ := span_succ l i
      rw [node, node, ih fun q hq hq' ↦ h q (by omega) (by omega),
        ih fun q hq hq' ↦ h q (by omega) (by omega)]

/-- A node behind the cut is that of a tree of empty leaves. -/
theorem node_truncate_of_le (h : n ≤ i * 2 ^ l) :
    node combine (truncate emptyLeaf n leaf) l i = uniformRoot combine emptyLeaf l := by
  induction l generalizing i with
  | zero => exact if_neg (by omega)
  | succ l ih =>
      obtain ⟨hstart, hmid, -, -⟩ := span_succ l i
      rw [hstart] at h
      rw [node, uniformRoot, ih h, ih (hmid ▸ Nat.le_add_right_of_le h)]

/-- A node before the cut is as it was. -/
theorem node_truncate_of_ge (h : (i + 1) * 2 ^ l ≤ n) :
    node combine (truncate emptyLeaf n leaf) l i = node combine leaf l i :=
  node_congr fun _ _ hq ↦ if_pos (lt_of_lt_of_le hq h)

theorem padded_take (n : Nat) (leaves : List H) :
    padded emptyLeaf (leaves.take n) = truncate emptyLeaf n (padded emptyLeaf leaves) := by
  funext q
  rw [padded, truncate, List.getD_eq_getElem?_getD, List.getElem?_take]
  split
  · rfl
  · rfl

/-- The root of a full list of leaves is the node over the positions that it fills. -/
theorem root_eq_node {h : leaves.length = 2 ^ l}
    (hleaf : ∀ q < 2 ^ l, leaves[q]? = some (leaf (i * 2 ^ l + q))) :
    root combine l leaves h = node combine leaf l i := by
  induction l generalizing leaves i with
  | zero =>
      obtain ⟨x, rfl⟩ := List.length_eq_one_iff.mp h
      have hx := hleaf 0 Nat.one_pos
      rw [pow_zero, Nat.mul_one, Nat.add_zero, List.getElem?_cons_zero, Option.some_inj] at hx
      exact hx
  | succ l ih =>
      obtain ⟨hstart, hmid, -, -⟩ := span_succ l i
      have hpow : 2 ^ (l + 1) = 2 ^ l + 2 ^ l := by ring
      rw [root, node]
      congr 1
      · refine ih fun q hq ↦ ?_
        rw [List.getElem?_take, if_pos hq, hleaf q (by omega), hstart]
      · refine ih fun q hq ↦ ?_
        rw [List.getElem?_drop, hleaf _ (by omega), hstart, hmid, Nat.add_assoc]

/-! ## Paths -/

theorem ordered_node (leaf : Nat → H) (l i : Nat) :
    ordered i (node combine leaf l i) (node combine leaf l (sibling i)) =
      (node combine leaf l (2 * (i / 2)), node combine leaf l (2 * (i / 2) + 1)) := by
  rw [ordered, sibling]
  split
  · rw [show 2 * (i / 2) = i by omega]
  · rw [show 2 * (i / 2) + 1 = i by omega, show i - 1 = 2 * (i / 2) by omega]

theorem parent_node (leaf : Nat → H) (l i : Nat) :
    parent combine l i (node combine leaf l i) (node combine leaf l (sibling i)) =
      node combine leaf (l + 1) (i / 2) := by
  rw [parent, ordered_node, node]

theorem div_two_div (i d : Nat) : i / 2 / 2 ^ d = i / 2 ^ (d + 1) := by
  rw [Nat.div_div_eq_div_mul, ← Nat.pow_succ']

variable (combine) in
/-- Along the tree's own siblings a climb ends in the tree's node. -/
theorem climb_siblings (leaf : Nat → H) (d l i : Nat) :
    climb combine l i (node combine leaf l i) (siblings combine leaf d l i) =
      node combine leaf (l + d) (i / 2 ^ d) := by
  induction d generalizing l i with
  | zero => rw [siblings, climb, pow_zero, Nat.div_one, Nat.add_zero]
  | succ d ih =>
      rw [siblings, climb, parent_node, ih, div_two_div, Nat.add_right_comm, Nat.add_assoc]

/-- A climb that ends in the tree's node started at one, unless the hash collides. -/
theorem eq_or_collides_of_climb
    (h : climb combine l i hash path = node combine leaf (l + path.length) (i / 2 ^ path.length)) :
    hash = node combine leaf l i ∨ Collides combine leaf l i hash path := by
  induction path generalizing l i hash with
  | nil =>
      rw [climb, List.length_nil, Nat.add_zero, pow_zero, Nat.div_one] at h
      exact .inl h
  | cons s path ih =>
      rw [climb, List.length_cons, ← div_two_div, Nat.add_comm path.length, ← Nat.add_assoc] at h
      rcases ih h with heq | hcoll
      · by_cases hpair : ordered i hash s =
          (node combine leaf l (2 * (i / 2)), node combine leaf l (2 * (i / 2) + 1))
        · refine .inl ?_
          rw [← ordered_node] at hpair
          simp only [ordered] at hpair
          split at hpair
          · exact (Prod.mk.inj hpair).1
          · exact (Prod.mk.inj hpair).2
        · exact .inr (.here hpair heq)
      · exact .inr (.above hcoll)

end LedgerZcash.Merkle
