import LedgerZcash.Lib.Frontier

/-!
# Sparse trees

A sparse tree knows some nodes of a Merkle tree: roots of subtrees, a frontier, runs of
leaves.  Its checkpoint is a number of leaves; as of the checkpoint every later position is
empty, and a node is determined (`eval`) when it is empty, known as a whole, or has
determined children.

When everything known is true of one tree (`Sound`), what is determined is that tree cut at the
checkpoint.  Three things together determine its root and the path of a leaf: the frontier, the
roots of the complete subtrees of some level, and the leaves of the subtree with the leaf
(`root_eq`, `path_eq`).
-/

namespace LedgerZcash.Merkle

universe u

/-- Some nodes by level and index, the positions that a path may be asked for, and the number
of leaves at the checkpoint. -/
structure Sparse (H : Type u) where
  known : (level i : Nat) → Option H
  marked : List Nat
  checkpoint : Option Nat

namespace Sparse

variable {H : Type u} (combine : Nat → H → H → H) (emptyLeaf : H)

/-! ## Insertions -/

def empty : Sparse H where
  known _ _ := none
  marked := []
  checkpoint := none

/-- Insert the root of a subtree. -/
def insert (t : Sparse H) (level i : Nat) (hash : H) : Sparse H where
  known l j := if l = level ∧ j = i then some hash else t.known l j
  marked := t.marked
  checkpoint := t.checkpoint

/-- The nodes that a frontier consists of. -/
def frontierNode (f : Frontier H) (l i : Nat) : Option H :=
  if l = 0 ∧ i = f.position then some f.leaf
  else if i + 1 = f.position / 2 ^ l then f.ommer l
  else none

/-- Insert a frontier and set the checkpoint behind it. -/
def insertFrontier (t : Sparse H) : Option (Frontier H) → Sparse H
  | none => { t with checkpoint := some 0 }
  | some f =>
      { t with
        known := fun l i ↦ (frontierNode f l i).or (t.known l i)
        checkpoint := some (f.position + 1) }

/-- Insert leaves from a position on; a leaf may be marked. -/
def insertLeaves (t : Sparse H) (start : Nat) (leaves : List (H × Bool)) : Sparse H where
  known l i :=
    (if l = 0 ∧ start ≤ i then leaves[i - start]?.map Prod.fst else none).or (t.known l i)
  marked := t.marked ++ (leaves.zipIdx start).filterMap fun (leaf, p) ↦
    if leaf.2 then some p else none
  checkpoint := t.checkpoint

/-! ## Answers -/

/-- A node as of a checkpoint, where it is determined. -/
def eval (t : Sparse H) (n : Nat) : (level i : Nat) → Option H
  | 0, i => if n ≤ i then some emptyLeaf else t.known 0 i
  | l + 1, i =>
      if n ≤ i * 2 ^ (l + 1) then some (uniformRoot combine emptyLeaf (l + 1))
      else
        (if (i + 1) * 2 ^ (l + 1) ≤ n then t.known (l + 1) i else none).or do
          let left ← eval t n l (2 * i)
          let right ← eval t n l (2 * i + 1)
          pure (combine l left right)

/-- The siblings on the `d` levels from a node up, where they are determined. -/
def evalSiblings (t : Sparse H) (n : Nat) : (d level i : Nat) → Option (List H)
  | 0, _, _ => some []
  | d + 1, l, i => do
      let s ← t.eval combine emptyLeaf n l (sibling i)
      let path ← evalSiblings t n d (l + 1) (i / 2)
      pure (s :: path)

/-- The root as of the checkpoint. -/
def root (t : Sparse H) (depth : Nat) : Option H :=
  t.checkpoint.bind fun n ↦ t.eval combine emptyLeaf n depth 0

/-- The path of a marked position as of the checkpoint. -/
def path (t : Sparse H) (depth p : Nat) : Option (List H) :=
  t.checkpoint.bind fun n ↦
    if p ∈ t.marked ∧ p < n then t.evalSiblings combine emptyLeaf n depth 0 p else none

/-! ## Soundness -/

/-- Everything that is known is true of the tree with these leaves. -/
def Sound (t : Sparse H) (leaf : Nat → H) : Prop :=
  ∀ l i hash, t.known l i = some hash → hash = node combine leaf l i

variable {combine emptyLeaf} {t : Sparse H} {leaf : Nat → H} {n l i j p start level : Nat}
  {hash : H}

theorem sound_empty : (empty : Sparse H).Sound combine leaf := fun _ _ _ h ↦ nomatch h

theorem sound_insert (h : t.Sound combine leaf) :
    (t.insert level i (node combine leaf level i)).Sound combine leaf := by
  intro l j hash hknown
  simp only [insert] at hknown
  split at hknown
  · rename_i heq
    rw [← Option.some.inj hknown, heq.1, heq.2]
  · exact h l j hash hknown

theorem frontierNode_ofLeaves
    (h : frontierNode (Frontier.ofLeaves combine leaf p) l i = some hash) :
    hash = node combine leaf l i := by
  rw [frontierNode] at h
  split at h
  · rename_i heq
    rw [heq.1, heq.2]
    exact (Option.some.inj h).symm
  · rw [Option.ite_none_right_eq_some, Frontier.ommer_ofLeaves, Option.ite_none_right_eq_some] at h
    obtain ⟨hi, -, h⟩ := h
    have hi' : p / 2 ^ l - 1 = i := by
      rw [← show i + 1 = p / 2 ^ l from hi, Nat.add_sub_cancel]
    rw [← Option.some.inj h, hi']

theorem sound_insertFrontier (h : t.Sound combine leaf) (n : Nat) :
    (t.insertFrontier (Frontier.ofCount combine leaf n)).Sound combine leaf := by
  intro l i hash hknown
  cases n with
  | zero => exact h l i hash hknown
  | succ p =>
      rcases Option.or_eq_some_iff.mp hknown with hf | ⟨-, ht⟩
      · exact frontierNode_ofLeaves hf
      · exact h l i hash ht

theorem sound_insertLeaves (h : t.Sound combine leaf) {leaves : List (H × Bool)}
    (hl : ∀ i x, leaves[i]? = some x → x.1 = leaf (start + i)) :
    (t.insertLeaves start leaves).Sound combine leaf := by
  intro l i hash hknown
  rcases Option.or_eq_some_iff.mp hknown with hnew | ⟨-, ht⟩
  · rw [Option.ite_none_right_eq_some, Option.map_eq_some_iff] at hnew
    obtain ⟨⟨rfl, hle⟩, x, hx, rfl⟩ := hnew
    rw [node, hl _ _ hx, Nat.add_sub_cancel' hle]
  · exact h l i hash ht

/-! ## What is determined -/

/-- The node is determined, as that of the tree cut at the checkpoint. -/
def Determines (combine : Nat → H → H → H) (emptyLeaf : H) (t : Sparse H) (leaf : Nat → H)
    (n l i : Nat) : Prop :=
  t.eval combine emptyLeaf n l i = some (node combine (truncate emptyLeaf n leaf) l i)

theorem determines_of_le (h : n ≤ i * 2 ^ l) : t.Determines combine emptyLeaf leaf n l i := by
  rw [Determines, node_truncate_of_le h]
  cases l with
  | zero => exact if_pos (by omega)
  | succ l => exact if_pos h

theorem determines_of_known (ht : t.Sound combine leaf) (h : (i + 1) * 2 ^ l ≤ n)
    (hknown : (t.known l i).isSome) : t.Determines combine emptyLeaf leaf n l i := by
  obtain ⟨hash, hhash⟩ := Option.isSome_iff_exists.mp hknown
  have hlt : ¬ n ≤ i * 2 ^ l := by
    have := Nat.two_pow_pos l
    rw [Nat.succ_mul] at h
    omega
  rw [Determines, node_truncate_of_ge h, ← ht l i hash hhash]
  cases l with
  | zero =>
      rw [pow_zero, Nat.mul_one] at hlt
      rw [eval, if_neg hlt, hhash]
  | succ l => rw [eval, if_neg hlt, if_pos h, hhash, Option.some_or]

theorem determines_succ (ht : t.Sound combine leaf)
    (hleft : t.Determines combine emptyLeaf leaf n l (2 * i))
    (hright : t.Determines combine emptyLeaf leaf n l (2 * i + 1)) :
    t.Determines combine emptyLeaf leaf n (l + 1) i := by
  by_cases hle : n ≤ i * 2 ^ (l + 1)
  · exact determines_of_le hle
  · rw [Determines] at hleft hright ⊢
    rw [eval, if_neg hle, hleft, hright]
    by_cases hge : (i + 1) * 2 ^ (l + 1) ≤ n
    · rw [if_pos hge]
      cases hknown : t.known (l + 1) i with
      | none => rfl
      | some hash => rw [ht _ _ _ hknown, Option.some_or, node_truncate_of_ge hge]
    · rw [if_neg hge]
      rfl

/-- Determined nodes of one level determine the nodes above them. -/
theorem determines_of_below (ht : t.Sound combine leaf) {d : Nat}
    (h : ∀ j, i * 2 ^ d ≤ j → j < (i + 1) * 2 ^ d → t.Determines combine emptyLeaf leaf n l j) :
    t.Determines combine emptyLeaf leaf n (l + d) i := by
  induction d generalizing i with
  | zero => exact h i (by omega) (by omega)
  | succ d ih =>
      obtain ⟨hstart, hmid, hend, hend'⟩ := span_succ d i
      refine determines_succ ht (ih fun j hj hj' ↦ h j (by omega) (by omega)) ?_
      exact ih fun j hj hj' ↦ h j (by omega) (by omega)

/-- The rightmost leaf up to a checkpoint is known, and its left siblings. -/
def HasFrontier (t : Sparse H) (n : Nat) : Prop :=
  ∀ p, n = p + 1 → (t.known 0 p).isSome ∧
    ∀ l, p / 2 ^ l % 2 = 1 → (t.known l (p / 2 ^ l - 1)).isSome

/-- A frontier determines the nodes over the rightmost leaf. -/
theorem determines_of_frontier (ht : t.Sound combine leaf) (hf : t.HasFrontier (p + 1)) (l : Nat) :
    t.Determines combine emptyLeaf leaf (p + 1) l (p / 2 ^ l) := by
  obtain ⟨hleaf, hommers⟩ := hf p rfl
  induction l with
  | zero =>
      rw [pow_zero, Nat.div_one]
      exact determines_of_known ht (by omega) hleaf
  | succ l ih =>
      obtain ⟨hle, hlt⟩ := Frontier.div_mul_le_lt p l
      have hommer := hommers l
      rw [Nat.pow_succ, ← Nat.div_div_eq_div_mul]
      generalize p / 2 ^ l = i at hle hlt hommer ih ⊢
      rcases Nat.mod_two_eq_zero_or_one i with heven | hodd
      · refine determines_succ ht ?_ (determines_of_le ?_)
        · rwa [show 2 * (i / 2) = i by omega]
        · rw [show 2 * (i / 2) = i by omega]
          exact hlt
      · refine determines_succ ht ?_ ?_
        · rw [show 2 * (i / 2) = i - 1 by omega]
          refine determines_of_known ht ?_ (hommer hodd)
          rw [Nat.sub_add_cancel (by omega)]
          exact Nat.le_succ_of_le hle
        · rwa [show 2 * (i / 2) + 1 = i by omega]

/-- The subtrees of a level that are complete at a checkpoint are known. -/
def HasRoots (t : Sparse H) (level n : Nat) : Prop :=
  ∀ i, (i + 1) * 2 ^ level ≤ n → (t.known level i).isSome

/-- The leaves of one subtree up to a checkpoint are known. -/
def HasLeaves (t : Sparse H) (level i n : Nat) : Prop :=
  ∀ p, i * 2 ^ level ≤ p → p < (i + 1) * 2 ^ level → p < n → (t.known 0 p).isSome

/-- A node is behind the checkpoint, over the rightmost leaf, or complete. -/
theorem position_cases (n l i : Nat) :
    n ≤ i * 2 ^ l ∨ (∃ p, n = p + 1 ∧ i = p / 2 ^ l) ∨ (i + 1) * 2 ^ l ≤ n := by
  cases n with
  | zero => exact .inl (Nat.zero_le _)
  | succ p =>
      rcases lt_trichotomy i (p / 2 ^ l) with hlt | heq | hgt
      · have hle := (Nat.le_div_iff_mul_le (Nat.two_pow_pos l)).mp (Nat.succ_le_of_lt hlt)
        exact .inr (.inr (hle.trans (Nat.le_succ p)))
      · exact .inr (.inl ⟨p, rfl, heq⟩)
      · have hlt := (Nat.div_lt_iff_lt_mul (Nat.two_pow_pos l)).mp hgt
        exact .inl hlt

/-- Above the level of the known roots everything is determined. -/
theorem determines_above (ht : t.Sound combine leaf) (hf : t.HasFrontier n)
    (hr : t.HasRoots level n) (d i : Nat) :
    t.Determines combine emptyLeaf leaf n (level + d) i := by
  rcases position_cases n (level + d) i with hle | ⟨p, rfl, rfl⟩ | hge
  · exact determines_of_le hle
  · exact determines_of_frontier ht hf _
  · refine determines_of_below ht fun j hj hj' ↦ ?_
    have hcover : (j + 1) * 2 ^ level ≤ n := by
      refine le_trans (Nat.mul_le_mul_right _ hj') ?_
      rwa [Nat.mul_assoc, ← Nat.pow_add, Nat.add_comm d]
    exact determines_of_known ht hcover (hr j hcover)

/-- Inside a subtree with known leaves everything is determined. -/
theorem determines_inside (ht : t.Sound combine leaf) {s : Nat} (hl : t.HasLeaves level s n)
    {l d : Nat} (hd : l + d = level) (hi : i / 2 ^ d = s) :
    t.Determines combine emptyLeaf leaf n l i := by
  rw [← Nat.zero_add l]
  refine determines_of_below ht fun p hp hp' ↦ ?_
  by_cases hlt : p < n
  · refine determines_of_known ht (by omega) (hl p ?_ ?_ hlt)
    · refine le_trans ?_ hp
      rw [← hd, ← hi, Nat.add_comm, Nat.pow_add, ← Nat.mul_assoc]
      exact Nat.mul_le_mul_right _ (Nat.div_mul_le_self _ _)
    · refine lt_of_lt_of_le hp' ?_
      rw [← hd, ← hi, Nat.add_comm l, Nat.pow_add, ← Nat.mul_assoc]
      exact Nat.mul_le_mul_right _ (Frontier.div_mul_le_lt i d).2
  · exact determines_of_le (by omega)

theorem sibling_div_two (i : Nat) : sibling i / 2 = i / 2 := by
  rw [sibling]
  split
  · omega
  · omega

theorem evalSiblings_eq (d l : Nat)
    (h : ∀ k < d, t.Determines combine emptyLeaf leaf n (l + k) (sibling (i / 2 ^ k))) :
    t.evalSiblings combine emptyLeaf n d l i =
      some (siblings combine (truncate emptyLeaf n leaf) d l i) := by
  induction d generalizing l i with
  | zero => rfl
  | succ d ih =>
      have hhere := h 0 (Nat.succ_pos d)
      rw [pow_zero, Nat.div_one, Nat.add_zero, Determines] at hhere
      have hrest := ih (i := i / 2) (l + 1) fun k hk ↦ by
        rw [div_two_div, Nat.add_right_comm, Nat.add_assoc]
        exact h (k + 1) (Nat.succ_lt_succ hk)
      rw [evalSiblings, hhere, hrest]
      rfl

theorem length_of_evalSiblings {d : Nat} {path : List H}
    (h : t.evalSiblings combine emptyLeaf n d l i = some path) : path.length = d := by
  induction d generalizing l i path with
  | zero =>
      cases h
      rfl
  | succ d ih =>
      rw [evalSiblings, Option.bind_eq_bind, Option.bind_eq_some_iff] at h
      obtain ⟨s, -, h⟩ := h
      obtain ⟨rest, hrest, h⟩ := Option.bind_eq_some_iff.mp h
      rw [← Option.some.inj h, List.length_cons, ih hrest]

theorem length_of_path {depth : Nat} {path : List H}
    (h : t.path combine emptyLeaf depth p = some path) : path.length = depth := by
  obtain ⟨n, -, h⟩ := Option.bind_eq_some_iff.mp h
  exact length_of_evalSiblings (Option.ite_none_right_eq_some.mp h).2

/-! ## What insertions add -/

theorem isSome_insert : ((t.insert level i hash).known l j).isSome ↔
    (l = level ∧ j = i) ∨ (t.known l j).isSome := by
  simp only [insert]
  split
  · simp [*]
  · simp [*]

theorem isSome_insertFrontier {f : Option (Frontier H)} (h : (t.known l i).isSome) :
    ((t.insertFrontier f).known l i).isSome := by
  cases f with
  | none => exact h
  | some f =>
      rw [insertFrontier, Option.isSome_or, h, Bool.or_true]

theorem isSome_insertLeaves {leaves : List (H × Bool)} :
    ((t.insertLeaves start leaves).known l i).isSome ↔
      (l = 0 ∧ start ≤ i ∧ i < start + leaves.length) ∨ (t.known l i).isSome := by
  simp only [insertLeaves, Option.isSome_or, Bool.or_eq_true]
  refine or_congr_left ?_
  split
  · rename_i h
    rw [Option.isSome_map, isSome_getElem?]
    exact ⟨fun hlt ↦ ⟨h.1, h.2, by omega⟩, fun h' ↦ by omega⟩
  · rename_i h
    exact ⟨fun h' ↦ absurd h' (by simp), fun h' ↦ absurd ⟨h'.1, h'.2.1⟩ h⟩

theorem mem_marked_insertLeaves {leaves : List (H × Bool)} :
    p ∈ (t.insertLeaves start leaves).marked ↔
      p ∈ t.marked ∨ ∃ i hash, leaves[i]? = some (hash, true) ∧ p = start + i := by
  simp only [insertLeaves, List.mem_append, List.mem_filterMap,
    List.mem_zipIdx_iff_le_and_getElem?_sub, Option.ite_none_right_eq_some]
  refine or_congr_right ?_
  constructor
  · rintro ⟨⟨⟨hash, mark⟩, q⟩, ⟨hle, hget⟩, rfl, hq⟩
    exact ⟨q - start, hash, hget, by rw [← Option.some.inj hq, Nat.add_sub_cancel' hle]⟩
  · rintro ⟨i, hash, hget, rfl⟩
    refine ⟨((hash, true), start + i), ⟨Nat.le_add_right _ _, ?_⟩, rfl, rfl⟩
    rwa [Nat.add_sub_cancel_left]

/-- An inserted frontier is there. -/
theorem hasFrontier_insertFrontier :
    (t.insertFrontier (Frontier.ofCount combine leaf n)).HasFrontier n := by
  rintro p rfl
  constructor
  · show (((frontierNode _ 0 p).or _).isSome = true)
    rw [frontierNode, if_pos ⟨rfl, rfl⟩]
    rfl
  · intro l hodd
    have hpos : p / 2 ^ l - 1 + 1 = p / 2 ^ l :=
      Nat.sub_add_cancel (Nat.one_le_iff_ne_zero.mpr fun h ↦ by simp [h] at hodd)
    show ((frontierNode _ l (p / 2 ^ l - 1)).or _).isSome = true
    rw [frontierNode]
    split
    · rfl
    · rw [if_pos (show p / 2 ^ l - 1 + 1 = (Frontier.ofLeaves combine leaf p).position / 2 ^ l
        from hpos), Frontier.ommer_ofLeaves, if_pos hodd]
      rfl

theorem HasFrontier.mono {t' : Sparse H} (h : t.HasFrontier n)
    (hmono : ∀ l i, (t.known l i).isSome → (t'.known l i).isSome) : t'.HasFrontier n := by
  intro p hp
  obtain ⟨hleaf, hommers⟩ := h p hp
  exact ⟨hmono _ _ hleaf, fun l hl ↦ hmono _ _ (hommers l hl)⟩

/-! ## Sufficiency -/

section Sufficient

variable {depth : Nat}

/-- A sound tree with its frontier determines the root as of the checkpoint. -/
theorem root_eq (ht : t.Sound combine leaf) (hn : t.checkpoint = some n) (hf : t.HasFrontier n)
    (hle : n ≤ 2 ^ depth) :
    t.root combine emptyLeaf depth = some (node combine (truncate emptyLeaf n leaf) depth 0) := by
  rw [root, hn]
  show t.eval combine emptyLeaf n depth 0 = _
  cases n with
  | zero => exact determines_of_le (Nat.zero_le _)
  | succ p =>
      have h : t.Determines combine emptyLeaf leaf (p + 1) depth (p / 2 ^ depth) :=
        determines_of_frontier ht hf depth
      rwa [Nat.div_eq_of_lt hle] at h

/-- With the roots of the complete subtrees and the leaves of the subtree that holds it, the path
of a marked position is determined. -/
theorem path_eq (ht : t.Sound combine leaf) (hn : t.checkpoint = some n) (hf : t.HasFrontier n)
    (hr : t.HasRoots level n) (hlevel : level ≤ depth) (hl : t.HasLeaves level (p / 2 ^ level) n)
    (hp : p < n) (hmark : p ∈ t.marked) : t.path combine emptyLeaf depth p =
      some (siblings combine (truncate emptyLeaf n leaf) depth 0 p) := by
  rw [path, hn]
  show (if p ∈ t.marked ∧ p < n then _ else _) = _
  rw [if_pos ⟨hmark, hp⟩]
  refine evalSiblings_eq depth 0 fun k hk ↦ ?_
  rw [Nat.zero_add]
  rcases Nat.lt_or_ge k level with hlt | hge
  · obtain ⟨d, rfl⟩ := Nat.exists_eq_add_of_lt hlt
    refine determines_inside (d := d + 1) ht hl (Nat.add_assoc k d 1).symm ?_
    rw [← div_two_div, sibling_div_two, div_two_div, Nat.div_div_eq_div_mul, ← Nat.pow_add,
      Nat.add_assoc]
  · obtain ⟨d, rfl⟩ := Nat.exists_eq_add_of_le hge
    exact determines_above ht hf hr d _

end Sufficient

end Sparse

end LedgerZcash.Merkle
