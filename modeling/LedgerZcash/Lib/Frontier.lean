import LedgerZcash.Lib.MerkleTree
import Mathlib.Data.Nat.BitIndices

/-!
# Frontiers

A frontier is what is kept of a tree that is filled from the left: the rightmost leaf, its
position, and the left siblings that it has on its way up (its ommers), one for each set bit
of the position.  Together with empty nodes on the right they give the root of the whole tree
(`root_ofLeaves`).
-/

namespace LedgerZcash.Merkle

universe u

/-- The rightmost leaf and its left siblings, from the lowest level up. -/
structure Frontier (H : Type u) where
  position : Nat
  leaf : H
  ommers : List H
  length_eq : ommers.length = position.bitIndices.length

theorem lookup_zip_map {α β : Type*} [DecidableEq α] (f : α → β) (a : α) (xs : List α) :
    (xs.zip (xs.map f)).lookup a = if a ∈ xs then some (f a) else none := by
  induction xs with
  | nil => rfl
  | cons x xs ih =>
      rw [List.map_cons, List.zip_cons_cons, List.lookup_cons, ih]
      split
      · rename_i h
        rw [beq_iff_eq.mp h, if_pos List.mem_cons_self]
      · rename_i h
        simp only [List.mem_cons, beq_eq_false_iff_ne.mp h, false_or]

namespace Frontier

variable {H : Type u} (combine : Nat → H → H → H) (emptyLeaf : H)

/-- The left sibling at a level, where the way up has one. -/
def ommer (f : Frontier H) (level : Nat) : Option H :=
  (f.position.bitIndices.zip f.ommers).lookup level

/-- The node over the rightmost leaf at a level, with empty nodes on its right. -/
def root (f : Frontier H) : (level : Nat) → H
  | 0 => f.leaf
  | l + 1 =>
      match f.ommer l with
      | some left => combine l left (f.root l)
      | none => combine l (f.root l) (uniformRoot combine emptyLeaf l)

/-- The frontier of the leaves up to a position. -/
def ofLeaves (leaf : Nat → H) (p : Nat) : Frontier H where
  position := p
  leaf := leaf p
  ommers := p.bitIndices.map fun l ↦ node combine leaf l (p / 2 ^ l - 1)
  length_eq := List.length_map _

/-- The frontier of `n` leaves; there is none without a leaf. -/
def ofCount (leaf : Nat → H) : Nat → Option (Frontier H)
  | 0 => none
  | p + 1 => some (ofLeaves combine leaf p)

/-- The root of a tree from its frontier. -/
def rootOf (frontier : Option (Frontier H)) (depth : Nat) : H :=
  match frontier with
  | none => uniformRoot combine emptyLeaf depth
  | some f => f.root combine emptyLeaf depth

variable {combine emptyLeaf} {leaf : Nat → H} {p l n : Nat}

theorem ommer_ofLeaves : (ofLeaves combine leaf p).ommer l =
    if p / 2 ^ l % 2 = 1 then some (node combine leaf l (p / 2 ^ l - 1)) else none := by
  rw [ommer, ofLeaves, lookup_zip_map]
  simp only [Nat.mem_bitIndices, Nat.testBit_eq_decide_div_mod_eq, decide_eq_true_iff]

theorem div_mul_le_lt (p l : Nat) :
    p / 2 ^ l * 2 ^ l ≤ p ∧ p < (p / 2 ^ l + 1) * 2 ^ l :=
  ⟨Nat.div_mul_le_self _ _, (Nat.div_lt_iff_lt_mul (Nat.two_pow_pos l)).mp (Nat.lt_succ_self _)⟩

/-- From its frontier a tree's nodes over the rightmost leaf are recomputed. -/
theorem root_ofLeaves : (ofLeaves combine leaf p).root combine emptyLeaf l =
    node combine (truncate emptyLeaf (p + 1) leaf) l (p / 2 ^ l) := by
  induction l with
  | zero =>
      rw [root, pow_zero, Nat.div_one, node, truncate, if_pos (Nat.lt_succ_self p)]
      rfl
  | succ l ih =>
      obtain ⟨hle, hlt⟩ := div_mul_le_lt p l
      rw [root, ommer_ofLeaves, ih, node, Nat.pow_succ, ← Nat.div_div_eq_div_mul]
      generalize p / 2 ^ l = i at hle hlt ⊢
      by_cases hodd : i % 2 = 1
      · have hleft : (i - 1 + 1) * 2 ^ l ≤ p + 1 := by
          rw [Nat.sub_add_cancel (by omega)]
          exact Nat.le_succ_of_le hle
        rw [if_pos hodd, show 2 * (i / 2) + 1 = i by omega, show 2 * (i / 2) = i - 1 by omega,
          ← node_truncate_of_ge hleft]
      · rw [if_neg hodd, show 2 * (i / 2) = i by omega, node_truncate_of_le hlt]

theorem rootOf_ofCount {depth : Nat} (h : n ≤ 2 ^ depth) :
    rootOf combine emptyLeaf (ofCount combine leaf n) depth =
      node combine (truncate emptyLeaf n leaf) depth 0 := by
  cases n with
  | zero => exact (node_truncate_of_le (Nat.zero_le _)).symm
  | succ p =>
      show (ofLeaves combine leaf p).root combine emptyLeaf depth = _
      rw [root_ofLeaves, Nat.div_eq_of_lt h]

theorem position_ofCount (leaf : Nat → H) (n : Nat) :
    (((ofCount combine leaf n).map position).map (· + 1)).getD 0 = n := by
  cases n with
  | zero => rfl
  | succ p => rfl

end Frontier

end LedgerZcash.Merkle
