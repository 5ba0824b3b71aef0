import LedgerZcash.Crypto.Tree
import LedgerZcash.Sync.Client
import Mathlib.Data.List.Sort
import Mathlib.Data.List.Dedup

/-!
# The witness orchestrator

`computeWitnessesForPool` fetches the frontier at an anchor, the completed shard roots
and the leaves of every shard that holds a requested note, and hands them to
`buildWitnesses` as its `WitnessInputs`.  `witnessInputs` is that function without its
last call, so that a property of what is handed over can be stated.

Heights and positions are natural numbers; the `u64` subtraction of `shardLeafBounds`
wraps, as it does in a release build.
-/

namespace LedgerZcash

open Hex Collect

/-- The safety margin below the tip when the caller pins no anchor height. -/
def defaultAnchorDepthBlocks : Nat := 10

def anchorHeightFromTip (tip : Nat) (anchorDepthBlocks : Option Nat) : Nat :=
  max (tip - anchorDepthBlocks.getD defaultAnchorDepthBlocks) 1

/-- The anchor height of a craft: an explicit height must not lie above the tip. -/
def resolveAnchorFromTip (tip : Nat) (explicit : Option Nat) : Except Failure Nat :=
  match explicit with
  | some height =>
      if tip < height then
        .error (.error ("anchor_height " ++ height.repr ++ " is above the chain tip " ++ tip.repr))
      else .ok height
  | none => .ok (anchorHeightFromTip tip none)

/-- The height of the block that a transaction crafted at `tip` is built for. -/
def nextBlockHeight (tip : Nat) : Except Failure Nat :=
  if tip + 1 < u32Size then .ok (tip + 1) else .error (.error "target_height overflow")

/-- A note for which a witness is requested. -/
structure NoteRef where
  position : Nat
  cmx : Bytes32
deriving DecidableEq

structure WitnessRequest where
  anchorHeight : Option Nat
  anchorDepthBlocks : Option Nat
  notes : List NoteRef
deriving DecidableEq

/-! ## Commitments of blocks -/

/-- The commitments of a block for a pool, in transaction and action order. -/
def pushBlockCmxs (pool : Pool) (block : Proto.CompactBlock) : Except Failure (List Bytes32) :=
  (block.vtx.flatMap pool.actions).mapM fun action ↦
    orElse (Arr.tryFrom 32 action.cmx) ("cmx not 32 bytes (got " ++ action.cmx.length.repr ++
      ") at block " ++ block.height.repr)

/-- The commitments of a range of blocks, streamed one after the other. -/
def collectCmxs (srv : Server) (pool : Pool) (start stop : Nat) :
    Except Failure (List Bytes32) := do
  let stream ← orFail (srv.getBlockRange start stop) fun e ↦
    "GetBlockRange(" ++ start.repr ++ "-" ++ stop.repr ++ ") failed: " ++ e
  let chunks ← stream.mapM fun item ↦ do
    let block ← orFail item fun e ↦ "GetBlockRange stream error: " ++ e
    pushBlockCmxs pool block
  pure chunks.flatten

/-! ## Tree sizes -/

variable (S : ShardTrees) (srv : Server) (pool : Pool)

/-- Number of commitments of the pool at the end of a block; zero at height zero. -/
def treeSizeAt (height : Nat) : Except Failure Nat :=
  if height = 0 then pure 0
  else do
    let ts ← getTreeStateAt srv height
    let bytes ← orFail (Hex.decode (pool.treeStateHex ts)) fun e ↦
      "TreeState frontier hex decode at " ++ height.repr ++ ": " ++ e.toString
    orFail (frontierLeafCount S bytes) fun e ↦
      "frontier leaf count at " ++ height.repr ++ ": " ++ e.toString

/-- The binary search of `findPoolActivationHeight`: the pool has leaves at `high` and
none before `low`. -/
def searchFirstLeaf (low high : Nat) : Except Failure Nat :=
  if low < high then do
    let mid := low + (high - low) / 2
    let size ← treeSizeAt S srv pool mid
    if size = 0 then searchFirstLeaf (mid + 1) high else searchFirstLeaf low mid
  else pure low
termination_by high - low
decreasing_by
  all_goals omega

/-- The first height at which the pool has a leaf. -/
def findPoolActivationHeight (anchorHeight : Nat) : Except Failure Nat := do
  let low ← searchFirstLeaf S srv pool 1 anchorHeight
  let size ← treeSizeAt S srv pool low
  if size = 0 then
    throw (.error ("find_pool_activation_height: pool " ++ pool.debug ++
      " has no leaves at or before anchor " ++ anchorHeight.repr))
  else pure low

/-- Runaway stop on a shard-0 leaf scan, in blocks. -/
def maxFirstLeafScanBlocks : Nat := 3000000

def widthError (firstLeaf endHeight : Nat) : Failure :=
  .error (pool.debug ++ " shard-0 scan range " ++ firstLeaf.repr ++ ".." ++ endHeight.repr ++
    " spans " ++ (endHeight - firstLeaf).repr ++ " blocks (limit " ++
    maxFirstLeafScanBlocks.repr ++ "); too wide to stream inline in a send — if the floor " ++
    "itself is wrong, the base-offset check in shard_leaf_bounds names it precisely")

/-- Reject an implausibly wide first-leaf scan range. -/
def checkFirstLeafScanWidth (firstLeaf endHeight : Nat) : Except Failure Unit :=
  if maxFirstLeafScanBlocks < endHeight - firstLeaf then throw (widthError pool firstLeaf endHeight)
  else pure ()

/-! ## Guards -/

/-- Reject a pool with no leaves at the anchor. -/
def checkPoolNonempty (anchorTotalLeaves anchorHeight : Nat) : Except Failure Unit :=
  if anchorTotalLeaves = 0 then
    throw (.error ("compute_witnesses: pool " ++ pool.debug ++
      " has no leaves at anchor height " ++ anchorHeight.repr))
  else pure ()

/-- Reject a note that cannot exist in the tree at the anchor. -/
def checkNotePositions (notes : List NoteRef) (anchorTotalLeaves anchorHeight : Nat) :
    Except Failure Unit :=
  match notes.find? fun n ↦ anchorTotalLeaves ≤ n.position with
  | some bad =>
      throw (.error ("compute_witnesses: pool " ++ pool.debug ++ " note position " ++
        bad.position.repr ++ " is at or past anchor_total_leaves " ++ anchorTotalLeaves.repr ++
        " at anchor height " ++ anchorHeight.repr))
  | none => pure ()

/-! ## Shard leaves -/

/-- The position at which a shard ends: the frontier shard ends with the tree. -/
def shardEnd (shardIdx frontierShardIndex anchorTotalLeaves : Nat) : Nat :=
  if shardIdx < frontierShardIndex then shardIdx * shardSize + shardSize else anchorTotalLeaves

/-- The slice of the commitments fetched from `baseOffset` on that a shard consists of. -/
def shardLeafBounds (shardIdx frontierShardIndex anchorTotalLeaves baseOffset rawLen : Nat) :
    Except Failure (Nat × Nat) :=
  let startPos := shardIdx * shardSize
  let endPos := shardEnd shardIdx frontierShardIndex anchorTotalLeaves
  if startPos < baseOffset then
    throw (.error ("shard " ++ shardIdx.repr ++ ": scan base offset " ++ baseOffset.repr ++
      " is past shard start " ++ startPos.repr))
  else
    let lo := startPos - baseOffset
    let hi := (endPos + u64Size - baseOffset) % u64Size
    if hi < lo ∨ rawLen < hi then
      throw (.error ("shard " ++ shardIdx.repr ++ ": leaf slice [" ++ lo.repr ++ ", " ++ hi.repr ++
        ") out of range for " ++ rawLen.repr ++ " fetched commitments"))
    else pure (lo, hi)

/-- The last block scanned for a shard: its completing block, or the anchor. -/
def shardEndHeight (subtreeRoots : List Proto.SubtreeRoot) (anchorHeight shardIdx : Nat) : Nat :=
  if shardIdx < asU32 subtreeRoots.length then
    (subtreeRoots[shardIdx]?.map fun root ↦ asU32 root.completingBlockHeight).getD anchorHeight
  else anchorHeight

/-- The first block scanned for a shard: the previous shard's completing block, or the
pool's first leaf. -/
def shardStartHeight (subtreeRoots : List Proto.SubtreeRoot) (endHeight shardIdx : Nat) :
    Except Failure Nat :=
  if shardIdx = 0 then do
    let firstLeaf ← findPoolActivationHeight S srv pool endHeight
    checkFirstLeafScanWidth pool firstLeaf endHeight
    pure firstLeaf
  else do
    let prev ← orElse subtreeRoots[shardIdx - 1]? ("requested shard " ++ shardIdx.repr ++
      " but only " ++ subtreeRoots.length.repr ++ " shards completed")
    pure (asU32 prev.completingBlockHeight)

/-- The leaves of one needed shard. -/
def fetchShard (subtreeRoots : List Proto.SubtreeRoot) (anchorHeight anchorTotalLeaves : Nat)
    (shardIdx : Nat) : Except Failure ShardLeaves := do
  let endHeight := shardEndHeight subtreeRoots anchorHeight shardIdx
  let startHeight ← shardStartHeight S srv pool subtreeRoots endHeight shardIdx
  let baseOffset ← treeSizeAt S srv pool (startHeight - 1)
  let raw ← collectCmxs srv pool startHeight endHeight
  let (lo, hi) ← shardLeafBounds shardIdx (asU32 subtreeRoots.length) anchorTotalLeaves baseOffset
    raw.length
  pure { shardIndex := shardIdx, cmxs := (raw.take hi).drop lo }

def fetchShardLeaves (subtreeRoots : List Proto.SubtreeRoot)
    (anchorHeight anchorTotalLeaves : Nat) (neededShards : List Nat) :
    Except Failure (List ShardLeaves) :=
  neededShards.mapM (fetchShard S srv pool subtreeRoots anchorHeight anchorTotalLeaves)

/-! ## Witnesses -/

/-- The shards that hold a requested note, ascending. -/
def neededShards (notes : List NoteRef) : List Nat :=
  (notes.map fun n ↦ asU32 (n.position / shardSize)).dedup.insertionSort (· ≤ ·)

/-- Every root that `GetSubtreeRoots` returned, under its index. -/
def capRoots (subtreeRoots : List Proto.SubtreeRoot) : Except Failure (List (Nat × Bytes32)) :=
  subtreeRoots.zipIdx.mapM fun (sr, i) ↦ do
    let bytes ← orElse (Arr.tryFrom 32 sr.rootHash)
      "GetSubtreeRoots returned a root that is not 32 bytes"
    pure (asU32 i, bytes)

/-- The anchor height of a request: pinned by the caller, or below the tip. -/
def resolveAnchor (anchorHeight anchorDepthBlocks : Option Nat) : Except Failure Nat :=
  match anchorHeight with
  | some h => pure h
  | none => do
      let tip ← chainTipWithClient srv
      pure (anchorHeightFromTip tip anchorDepthBlocks)

/-- What is fetched for the notes once the anchor height is known. -/
def witnessInputsAt (notes : List NoteRef) (anchorHeight : Nat) : Except Failure WitnessInputs := do
  let treeState ← getTreeStateAt srv anchorHeight
  let frontierBytes ← orFail (Hex.decode (pool.treeStateHex treeState)) fun e ↦
    "TreeState frontier hex decode failed: " ++ e.toString
  let anchorTotalLeaves ← orFail (frontierLeafCount S frontierBytes) fun e ↦
    "frontier leaf count: " ++ e.toString
  checkPoolNonempty pool anchorTotalLeaves anchorHeight
  checkNotePositions pool notes anchorTotalLeaves anchorHeight
  let subtreeRoots ← getSubtreeRootsForProtocol srv pool 0
  let shardLeaves ← fetchShardLeaves S srv pool subtreeRoots anchorHeight anchorTotalLeaves
    (neededShards notes)
  let capRoots ← capRoots subtreeRoots
  pure
    { capRoots, frontierBytes, anchorHeight, shardLeaves
      notes := notes.map fun n ↦ (n.position, n.cmx) }

/-- What is handed to `buildWitnesses`. -/
def witnessInputs (req : WitnessRequest) : Except Failure WitnessInputs :=
  if req.notes = [] then
    throw (.error ("compute_witnesses(" ++ pool.debug ++ "): notes list is empty"))
  else do
    orFail srv.connect id
    let anchorHeight ← resolveAnchor srv req.anchorHeight req.anchorDepthBlocks
    witnessInputsAt S srv pool req.notes anchorHeight

/-- Merkle witnesses for every requested note against a single anchor. -/
def computeWitnessesForPool (req : WitnessRequest) : Except Failure (WitnessOutput S) := do
  let inputs ← witnessInputs S srv pool req
  orFail (buildWitnesses S inputs) fun e ↦
    "build_witnesses (" ++ pool.debug ++ "): " ++ e.toString

def computeWitnesses (req : WitnessRequest) : Except Failure (WitnessOutput S) :=
  computeWitnessesForPool S srv .orchard req

def computeIronwoodWitnesses (req : WitnessRequest) : Except Failure (WitnessOutput S) :=
  computeWitnessesForPool S srv .ironwood req

/-- The anchor alone: the root of the frontier, with no shard data. -/
def fetchAnchorForPool (anchorHeight anchorDepthBlocks : Option Nat) :
    Except Failure (WitnessOutput S) := do
  orFail srv.connect id
  let resolvedHeight ← resolveAnchor srv anchorHeight anchorDepthBlocks
  let treeState ← getTreeStateAt srv resolvedHeight
  let frontierBytes ← orFail (Hex.decode (pool.treeStateHex treeState)) fun e ↦
    "TreeState frontier hex decode failed: " ++ e.toString
  let anchor ← orFail (frontierAnchor S frontierBytes) fun e ↦
    "frontier_anchor (anchor-only): " ++ e.toString
  pure { anchor, anchorHeight := resolvedHeight, witnesses := [] }

def fetchOrchardAnchor (anchorHeight anchorDepthBlocks : Option Nat) :
    Except Failure (WitnessOutput S) :=
  fetchAnchorForPool S srv .orchard anchorHeight anchorDepthBlocks

def fetchIronwoodAnchor (anchorHeight anchorDepthBlocks : Option Nat) :
    Except Failure (WitnessOutput S) :=
  fetchAnchorForPool S srv .ironwood anchorHeight anchorDepthBlocks

/-! ## The stages of a request -/

section Stages

variable {S srv pool} {req : WitnessRequest} {inputs : WitnessInputs}

variable (S srv pool req inputs) in
/-- What each stage of a request has fetched, once its inputs are handed over. -/
structure WitnessStages where
  treeState : Proto.TreeState
  total : Nat
  subtreeRoots : List Proto.SubtreeRoot
  treeState_eq : getTreeStateAt srv inputs.anchorHeight = .ok treeState
  frontierBytes_eq : Hex.decode (pool.treeStateHex treeState) = .ok inputs.frontierBytes
  total_eq : frontierLeafCount S inputs.frontierBytes = .ok total
  positions_eq : checkNotePositions pool req.notes total inputs.anchorHeight = .ok ()
  subtreeRoots_eq : getSubtreeRootsForProtocol srv pool 0 = .ok subtreeRoots
  shardLeaves_eq : fetchShardLeaves S srv pool subtreeRoots inputs.anchorHeight total
    (neededShards req.notes) = .ok inputs.shardLeaves
  capRoots_eq : capRoots subtreeRoots = .ok inputs.capRoots
  notes_eq : inputs.notes = req.notes.map fun n ↦ (n.position, n.cmx)

theorem witnessInputs_eq_ok (h : witnessInputs S srv pool req = .ok inputs) :
    Nonempty (WitnessStages S srv pool req inputs) := by
  unfold witnessInputs at h
  split at h
  · cases h
  obtain ⟨_, _, h⟩ := bind_eq_ok.mp h
  obtain ⟨anchorHeight, _, h⟩ := bind_eq_ok.mp h
  obtain ⟨treeState, htree, h⟩ := bind_eq_ok.mp h
  obtain ⟨bytes, hbytes, h⟩ := bind_eq_ok.mp h
  obtain ⟨total, htotal, h⟩ := bind_eq_ok.mp h
  obtain ⟨_, _, h⟩ := bind_eq_ok.mp h
  obtain ⟨_, hpositions, h⟩ := bind_eq_ok.mp h
  obtain ⟨roots, hroots, h⟩ := bind_eq_ok.mp h
  obtain ⟨leaves, hleaves, h⟩ := bind_eq_ok.mp h
  obtain ⟨cap, hcap, h⟩ := bind_eq_ok.mp h
  cases pure_eq_ok.mp h
  exact ⟨⟨treeState, total, roots, htree, orFail_eq_ok.mp hbytes, orFail_eq_ok.mp htotal,
    hpositions, hroots, hleaves, hcap, rfl⟩⟩

end Stages

end LedgerZcash
