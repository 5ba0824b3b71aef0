import LedgerZcash.Basic
import LedgerZcash.Lib.Collect

/-!
# Witness assembly

`buildWitnesses` rebuilds the part of the commitment tree that the requested notes
need and asks it for one Merkle path a note.  The tree itself — `ShardTree`, the
frontier codec and the hash — is upstream: `ShardTrees` collects the calls, with no
assumption on what they answer.
-/

namespace LedgerZcash

open Hex

/-- `1 << ORCHARD_SHARD_HEIGHT`: the leaves that a completed shard covers. -/
abbrev shardSize : Nat := 2 ^ 16

/-- `incrementalmerkletree::Retention`, as far as it is used. -/
inductive Retention where
  | ephemeral
  | marked
deriving DecidableEq, Repr

/-- The upstream tree: `Tree` values are the states of a `ShardTree<_, 32, 16>`. -/
structure ShardTrees where
  Hash : Type
  Frontier : Type
  Path : Type
  Tree : Type
  /-- `MerkleHashOrchard::from_bytes`. -/
  fromBytes : Bytes32 → Option Hash
  toBytes : Hash → Bytes32
  /-- `read_commitment_tree`, then `to_frontier`. -/
  readCommitmentTree : List UInt8 → Except String Frontier
  emptyFrontier : Frontier
  /-- The position of the rightmost leaf, if there is one. -/
  frontierPosition : Frontier → Option Nat
  frontierRoot : Frontier → Hash
  empty : Tree
  /-- `insert` of a root at shard level, by shard index. -/
  insert : Tree → Nat → Hash → Except String Tree
  /-- `insert_frontier` with a checkpoint of the given id. -/
  insertFrontier : Tree → Frontier → Nat → Except String Tree
  batchInsert : Tree → Nat → List (Hash × Retention) → Except String Tree
  /-- `root_at_checkpoint_depth(0)`. -/
  rootAtCheckpoint : Tree → Except String (Option Hash)
  /-- `witness_at_checkpoint_depth(position, 0)`. -/
  witnessAtCheckpoint : Tree → Nat → Except String (Option Path)
  /-- `MerklePath::root`. -/
  pathRoot : Path → Hash → Hash

/-- In-memory ordered cmx leaves for a single shard. -/
structure ShardLeaves where
  shardIndex : Nat
  cmxs : List Bytes32
deriving DecidableEq

/-- Pre-fetched inputs to `buildWitnesses`. -/
structure WitnessInputs where
  /-- Completed shard roots by index. -/
  capRoots : List (Nat × Bytes32)
  /-- The tree state of the anchor block. -/
  frontierBytes : List UInt8
  anchorHeight : Nat
  shardLeaves : List ShardLeaves
  /-- Position and cmx; the order is preserved in the output. -/
  notes : List (Nat × Bytes32)
deriving DecidableEq

variable (S : ShardTrees)

/-- Output of `buildWitnesses`. -/
structure WitnessOutput where
  anchor : Bytes32
  anchorHeight : Nat
  /-- One path per input note, in the same order. -/
  witnesses : List S.Path

/-- The empty byte string is the empty frontier. -/
def decodeOrchardFrontier (bytes : List UInt8) : Except Error S.Frontier :=
  if bytes = [] then .ok S.emptyFrontier
  else (S.readCommitmentTree bytes).mapError .frontierDecode

/-- Number of commitments represented by an encoded frontier. -/
def frontierLeafCount (bytes : List UInt8) : Except Error Nat := do
  let frontier ← decodeOrchardFrontier S bytes
  pure (((S.frontierPosition frontier).map (· + 1)).getD 0)

/-- Root of an encoded frontier. -/
def frontierAnchor (bytes : List UInt8) : Except Error Bytes32 := do
  let frontier ← decodeOrchardFrontier S bytes
  pure (S.toBytes (S.frontierRoot frontier))

/-- Step 2: insert the completed shard roots. -/
def insertCapRoots (tree : S.Tree) (capRoots : List (Nat × Bytes32)) : Except Error S.Tree :=
  capRoots.foldlM (fun tree (shardIndex, rootHash) ↦ do
    let hash ← okOr (S.fromBytes rootHash) (.invalidShardRoot shardIndex)
    (S.insert tree shardIndex hash).mapError .shardTree) tree

/-- The leaves of one shard with their retention: the requested positions are marked. -/
def retainedLeaves (marked : List Nat) (shard : ShardLeaves) :
    Except Error (List (S.Hash × Retention)) :=
  let base := shard.shardIndex * shardSize
  shard.cmxs.zipIdx.mapM fun (cmx, i) ↦ do
    let pos := base + i
    let h ← okOr (S.fromBytes cmx) (.invalidLeaf pos)
    pure (h, if pos ∈ marked then Retention.marked else Retention.ephemeral)

/-- Step 4: batch-insert the leaves of every shard that holds a requested note. -/
def insertShardLeaves (tree : S.Tree) (marked : List Nat) (shards : List ShardLeaves) :
    Except Error S.Tree :=
  shards.foldlM (fun tree shard ↦ do
    let leaves ← retainedLeaves S marked shard
    (S.batchInsert tree (shard.shardIndex * shardSize) leaves).mapError .shardTree) tree

/-- Steps 1 to 4: the tree that the witnesses are read from. -/
def assembleTree (inputs : WitnessInputs) : Except Error S.Tree := do
  let tree ← insertCapRoots S S.empty inputs.capRoots
  let frontier ← decodeOrchardFrontier S inputs.frontierBytes
  let tree ← (S.insertFrontier tree frontier inputs.anchorHeight).mapError .shardTree
  insertShardLeaves S tree (inputs.notes.map Prod.fst) inputs.shardLeaves

/-- Step 6 for one note: its path, checked against the anchor. -/
def noteWitness (tree : S.Tree) (anchorHeight : Nat) (anchor : Bytes32)
    (note : Nat × Bytes32) : Except Error S.Path := do
  let path? ← (S.witnessAtCheckpoint tree note.1).mapError .shardTree
  let path ← okOr path? (.noCheckpointForAnchor anchorHeight)
  let cmxHash ← okOr (S.fromBytes note.2) (.invalidLeaf note.1)
  let computed := S.toBytes (S.pathRoot path cmxHash)
  refuseIf (computed ≠ anchor) (Error.witnessMismatch note.1 anchor computed)
  pure path

/-- Build all witnesses against the supplied anchor. -/
def buildWitnesses (inputs : WitnessInputs) : Except Error (WitnessOutput S) := do
  let tree ← assembleTree S inputs
  let anchor? ← (S.rootAtCheckpoint tree).mapError .shardTree
  let anchorHash ← okOr anchor? (.noCheckpointForAnchor inputs.anchorHeight)
  let anchor := S.toBytes anchorHash
  let witnesses ← inputs.notes.mapM (noteWitness S tree inputs.anchorHeight anchor)
  pure { anchor, anchorHeight := inputs.anchorHeight, witnesses }

end LedgerZcash
