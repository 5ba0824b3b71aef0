import LedgerZcash.Crypto.Tree
import LedgerZcash.Lib.Merkle

/-!
# The root of a completed shard

`computeShardRoot` reduces the leaves of a shard level by level to its root, without a server.
The loop is that of `Merkle.rounds`, so the result is the recursive Merkle root
(`computeShardRootAt_exact`): no chunk is read out of bounds, and the only errors are a wrong
number of leaves and the first leaf that is not a field element.
-/

namespace LedgerZcash

open Hex Collect

/-- `ORCHARD_SHARD_HEIGHT`. -/
def orchardShardHeight : Nat := 16

variable (S : ShardTrees) (combine : Nat → S.Hash → S.Hash → S.Hash)

/-- Parse the leaves; the first one that is not valid is named by its position. -/
def parseLeaves (cmxs : List Bytes32) : Except Error (List S.Hash) :=
  cmxs.zipIdx.mapM fun (c, i) ↦ okOr (S.fromBytes c) (.invalidLeaf i)

/-- `compute_shard_root` at a shard height; `combine` is `MerkleHashOrchard::combine` at a level.
Without a value, an index was out of bounds. -/
def computeShardRootAt (height : Nat) (cmxs : List Bytes32) : Option (Except Error Bytes32) :=
  if cmxs.length ≠ 2 ^ height then
    some (.error (.invalidShardSize cmxs.length (2 ^ height)))
  else
    match parseLeaves S cmxs with
    | .error e => some (.error e)
    | .ok nodes => do
        let nodes ← Merkle.rounds combine height nodes
        let root ← nodes[0]?
        pure (.ok (S.toBytes root))

def computeShardRoot (cmxs : List Bytes32) : Option (Except Error Bytes32) :=
  computeShardRootAt S combine orchardShardHeight cmxs

variable {S combine} {cmxs : List Bytes32} {height : Nat}

/-- The leaves parse when all of them are valid. -/
theorem parseLeaves_eq_ok {nodes : List S.Hash} :
    parseLeaves S cmxs = .ok nodes ↔
      List.Forall₂ (fun c h ↦ S.fromBytes c = some h) cmxs nodes := by
  rw [parseLeaves, mapM_eq_ok_iff]
  simp only [okOr_eq_ok]
  have hcmxs : cmxs = cmxs.zipIdx.map Prod.fst := (List.zipIdx_map_fst 0 cmxs).symm
  conv_rhs => rw [hcmxs, List.forall₂_map_left_iff]

/-- A leaf that is not valid, with valid ones only before it. -/
def FirstInvalid (S : ShardTrees) (cmxs : List Bytes32) (i : Nat) : Prop :=
  (∃ c, cmxs[i]? = some c ∧ S.fromBytes c = none) ∧
    ∀ j < i, ∀ c, cmxs[j]? = some c → ∃ h, S.fromBytes c = some h

/-- Otherwise the first leaf that is not valid is named. -/
theorem parseLeaves_eq_error {e : Error} :
    parseLeaves S cmxs = .error e ↔ ∃ i, FirstInvalid S cmxs i ∧ e = .invalidLeaf i := by
  have hget : ∀ (i : Nat) (x : Bytes32 × Nat),
      cmxs.zipIdx[i]? = some x ↔ cmxs[i]? = some x.1 ∧ x.2 = i := by
    intro i x
    rw [List.getElem?_zipIdx, Option.map_eq_some_iff, Nat.zero_add]
    constructor
    · rintro ⟨c, hc, rfl⟩
      exact ⟨hc, rfl⟩
    · rintro ⟨hc, rfl⟩
      exact ⟨x.1, hc, rfl⟩
  rw [parseLeaves, mapM_eq_error_iff]
  constructor
  · rintro ⟨i, ⟨c, n⟩, hx, herr, hbefore⟩
    obtain ⟨hc, rfl⟩ := (hget i _).mp hx
    obtain ⟨hnone, rfl⟩ := okOr_eq_error.mp herr
    refine ⟨n, ⟨⟨c, hc, hnone⟩, fun j hj c' hc' ↦ ?_⟩, rfl⟩
    obtain ⟨h, hh⟩ := hbefore j hj (c', j) ((hget j _).mpr ⟨hc', rfl⟩)
    exact ⟨h, okOr_eq_ok.mp hh⟩
  · rintro ⟨i, ⟨⟨c, hc, hnone⟩, hbefore⟩, rfl⟩
    refine ⟨i, (c, i), (hget i _).mpr ⟨hc, rfl⟩, okOr_eq_error.mpr ⟨hnone, rfl⟩, ?_⟩
    rintro j hj ⟨c', n⟩ hx
    obtain ⟨h, hh⟩ := hbefore j hj c' ((hget j _).mp hx).1
    exact ⟨h, okOr_eq_ok.mpr hh⟩

/-- Some leaf is the first that is not valid, or all are valid. -/
theorem exists_firstInvalid_iff :
    (∃ i, FirstInvalid S cmxs i) ↔ ∃ c ∈ cmxs, S.fromBytes c = none := by
  constructor
  · rintro ⟨i, ⟨c, hc, hnone⟩, -⟩
    exact ⟨c, List.mem_of_getElem? hc, hnone⟩
  · rintro ⟨c, hc, hnone⟩
    cases hparse : parseLeaves S cmxs with
    | error e =>
        obtain ⟨i, hi, -⟩ := parseLeaves_eq_error.mp hparse
        exact ⟨i, hi⟩
    | ok nodes =>
        obtain ⟨i, hi⟩ := List.mem_iff_getElem?.mp hc
        obtain ⟨h, -, hh⟩ := exists_getElem?_of_forall₂ (parseLeaves_eq_ok.mp hparse) hi
        cases hnone.symm.trans hh

/-- The leaves of a full shard are reduced to their root. -/
theorem computeShardRootAt_of_ok {nodes : List S.Hash} (hparse : parseLeaves S cmxs = .ok nodes)
    (hlen : nodes.length = 2 ^ height) : computeShardRootAt S combine height cmxs =
      some (.ok (S.toBytes (Merkle.root combine height nodes hlen))) := by
  have hcmxs : cmxs.length = 2 ^ height :=
    (parseLeaves_eq_ok.mp hparse).length_eq.trans hlen
  rw [computeShardRootAt, if_neg (not_not.mpr hcmxs), hparse]
  show (Merkle.rounds combine height nodes >>= _) = _
  rw [Merkle.rounds_eq_root hlen]
  rfl

theorem computeShardRootAt_of_error {e : Error} (hlen : cmxs.length = 2 ^ height)
    (hparse : parseLeaves S cmxs = .error e) :
    computeShardRootAt S combine height cmxs = some (.error e) := by
  rw [computeShardRootAt, if_neg (not_not.mpr hlen), hparse]

theorem computeShardRootAt_of_length (hlen : cmxs.length ≠ 2 ^ height) :
    computeShardRootAt S combine height cmxs =
      some (.error (.invalidShardSize cmxs.length (2 ^ height))) := if_pos hlen

variable (combine) in
/-- A list of the right length has a root, unless a leaf does not parse. -/
theorem exists_computeShardRootAt (hlen : cmxs.length = 2 ^ height) :
    ∃ root, computeShardRootAt S combine height cmxs =
      some ((parseLeaves S cmxs).map fun _ ↦ root) := by
  cases hparse : parseLeaves S cmxs with
  | error e => exact ⟨fill 32 0, computeShardRootAt_of_error hlen hparse⟩
  | ok nodes =>
      have hnodes := (parseLeaves_eq_ok.mp hparse).length_eq.symm.trans hlen
      exact ⟨_, computeShardRootAt_of_ok hparse hnodes⟩

/-- The errors of a shard root. -/
theorem computeShardRootAt_eq_error {e : Error} :
    computeShardRootAt S combine height cmxs = some (.error e) ↔
      cmxs.length ≠ 2 ^ height ∧ e = .invalidShardSize cmxs.length (2 ^ height) ∨
      cmxs.length = 2 ^ height ∧ ∃ i, FirstInvalid S cmxs i ∧ e = .invalidLeaf i := by
  by_cases hlen : cmxs.length = 2 ^ height
  · obtain ⟨root, hroot⟩ := exists_computeShardRootAt combine hlen
    rw [hroot, Option.some_inj, map_eq_error, parseLeaves_eq_error]
    exact ⟨fun h ↦ .inr ⟨hlen, h⟩, fun h ↦ (h.resolve_left fun h ↦ h.1 hlen).2⟩
  · rw [computeShardRootAt_of_length hlen, Option.some.injEq, Except.error.injEq]
    exact ⟨fun h ↦ .inl ⟨hlen, h.symm⟩, fun h ↦ (h.resolve_right fun h ↦ hlen h.1).2.symm⟩

/-- Every index is in bounds. -/
theorem computeShardRootAt_ne_none : computeShardRootAt S combine height cmxs ≠ none := by
  by_cases hlen : cmxs.length = 2 ^ height
  · obtain ⟨root, hroot⟩ := exists_computeShardRootAt combine hlen
    rw [hroot]
    exact Option.some_ne_none _
  · rw [computeShardRootAt_of_length hlen]
    exact Option.some_ne_none _

/-- For every height, hash and list of leaves, the loop stays in bounds.  A full list of valid
leaves is reduced to the recursive Merkle root; an error means a wrong length or an invalid leaf,
and names the length or the position of the first such leaf. -/
theorem computeShardRootAt_exact (S : ShardTrees) (combine : Nat → S.Hash → S.Hash → S.Hash)
    (height : Nat) (cmxs : List Bytes32) :
    (∀ nodes (hlen : nodes.length = 2 ^ height),
      List.Forall₂ (fun c h ↦ S.fromBytes c = some h) cmxs nodes →
      computeShardRootAt S combine height cmxs =
        some (.ok (S.toBytes (Merkle.root combine height nodes hlen)))) ∧
    (∀ e, computeShardRootAt S combine height cmxs = some (.error e) ↔
      cmxs.length ≠ 2 ^ height ∧ e = .invalidShardSize cmxs.length (2 ^ height) ∨
      cmxs.length = 2 ^ height ∧ ∃ i, FirstInvalid S cmxs i ∧ e = .invalidLeaf i) ∧
    ((∃ e, computeShardRootAt S combine height cmxs = some (.error e)) ↔
      cmxs.length ≠ 2 ^ height ∨ ∃ c ∈ cmxs, S.fromBytes c = none) ∧
    computeShardRootAt S combine height cmxs ≠ none := by
  refine ⟨fun nodes hlen hvalid ↦ computeShardRootAt_of_ok (parseLeaves_eq_ok.mpr hvalid) hlen,
    fun e ↦ computeShardRootAt_eq_error, ?_, computeShardRootAt_ne_none⟩
  rw [← exists_firstInvalid_iff]
  constructor
  · rintro ⟨e, he⟩
    rcases computeShardRootAt_eq_error.mp he with ⟨hlen, -⟩ | ⟨-, i, hi, -⟩
    · exact .inl hlen
    · exact .inr ⟨i, hi⟩
  · rintro h
    by_cases hlen : cmxs.length = 2 ^ height
    · obtain ⟨i, hi⟩ := h.resolve_left (not_not.mpr hlen)
      exact ⟨_, computeShardRootAt_eq_error.mpr (.inr ⟨hlen, i, hi, rfl⟩)⟩
    · exact ⟨_, computeShardRootAt_of_length hlen⟩

end LedgerZcash
