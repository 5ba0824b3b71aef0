import LedgerZcash.Basic

/-!
# The compact-block server

The protocol messages and the RPCs of a lightwalletd or Zaino endpoint, as the sync
crate sees them.  A `Server` answers by its arguments alone; what changes between two
connections is a different `Server`.  Error answers are the display text of the gRPC
status, or of the connection error.
-/

namespace LedgerZcash

open Hex

namespace Proto

structure CompactSaplingOutput where
  cmu : List UInt8
  ephemeralKey : List UInt8
  ciphertext : List UInt8
deriving DecidableEq, Repr

structure CompactOrchardAction where
  nullifier : List UInt8
  cmx : List UInt8
  ephemeralKey : List UInt8
  ciphertext : List UInt8
deriving DecidableEq, Repr

structure CompactTx where
  /-- Internal byte order. -/
  txid : List UInt8
  outputs : List CompactSaplingOutput
  actions : List CompactOrchardAction
  ironwoodActions : List CompactOrchardAction
deriving DecidableEq, Repr

/-- The tree sizes at the end of a block, zero when unknown. -/
structure ChainMetadata where
  orchardCommitmentTreeSize : UInt32
  ironwoodCommitmentTreeSize : UInt32
deriving DecidableEq, Repr

structure CompactBlock where
  height : Nat
  hash : List UInt8
  time : Nat
  vtx : List CompactTx
  chainMetadata : Option ChainMetadata
deriving DecidableEq, Repr

/-- The hex of the pools' commitment-tree frontiers after a block. -/
structure TreeState where
  orchardTree : String
  ironwoodTree : String
deriving DecidableEq, Repr

structure SubtreeRoot where
  rootHash : List UInt8
  completingBlockHeight : Nat
deriving DecidableEq, Repr

end Proto

/-- Reads a pool's frontier out of a tree state. -/
def Pool.treeStateHex : Pool → Proto.TreeState → String
  | .orchard, ts => ts.orchardTree
  | .ironwood, ts => ts.ironwoodTree

/-- The actions of a compact transaction in a pool. -/
def Pool.actions : Pool → Proto.CompactTx → List Proto.CompactOrchardAction
  | .orchard, tx => tx.actions
  | .ironwood, tx => tx.ironwoodActions

/-- What an endpoint answers during one connection. -/
structure Server where
  connect : Except String Unit
  getLatestBlock : Except String Nat
  /-- The stream of the blocks of an inclusive range. -/
  getBlockRange : Nat → Nat → Except String (List (Except String Proto.CompactBlock))
  /-- The raw bytes of a transaction, by block height and internal-order txid. -/
  getTransaction : Nat → List UInt8 → Except String (List UInt8)
  getTreeState : Nat → Except String Proto.TreeState
  /-- The stream of the completed shard roots from an index on. -/
  getSubtreeRoots : Pool → Nat → Except String (List (Except String Proto.SubtreeRoot))

/-- Read a stream to its end; the first error item ends it. -/
def readStream {α : Type} (error : String → String) (stream : List (Except String α)) :
    Except Failure (List α) :=
  stream.mapM fun item ↦ orFail item error

def chainTipWithClient (srv : Server) : Except Failure Nat := do
  let height ← orFail srv.getLatestBlock fun e ↦ "GetLatestBlock failed: " ++ e
  pure (asU32 height)

/-- `connect`, then the tip. -/
def chainTip (srv : Server) : Except Failure Nat := do
  orFail srv.connect id
  chainTipWithClient srv

def getSubtreeRootsForProtocol (srv : Server) (pool : Pool) (startIndex : Nat) :
    Except Failure (List Proto.SubtreeRoot) := do
  let stream ← orFail (srv.getSubtreeRoots pool startIndex) fun e ↦ "GetSubtreeRoots failed: " ++ e
  readStream (fun e ↦ "GetSubtreeRoots stream error: " ++ e) stream

def getTreeStateAt (srv : Server) (height : Nat) : Except Failure Proto.TreeState :=
  orFail (srv.getTreeState height) fun e ↦ "GetTreeState(" ++ height.repr ++ ") failed: " ++ e

end LedgerZcash
