import LedgerZcash.Crypto.Decrypt
import LedgerZcash.Sync.Client
import LedgerZcash.Lib.Collect
import Mathlib.Data.List.AList

/-!
# One scan of a block range

`runSyncInner` streams the compact blocks of a range, trial-decrypts each of them,
fetches and fully decrypts the matches, adds the transactions that spend a tracked
nullifier, and marks the notes spent inside the range.

Order that the runtime is free to choose — completion of concurrent work, iteration
over hash sets and maps, equal keys of an unstable sort — is a `Runtime`, and every
result holds for all of them.  The two callbacks are recorded as traces, whether or not
the caller listens.  Warnings, timings and the diagnostic task are left out.
-/

namespace LedgerZcash

open Hex Collect

/-- The choices of the runtime during one scan. -/
structure Runtime where
  /-- Completion order of futures, iteration order of hash sets and maps. -/
  shuffle : {α : Type} → List α → List α
  shuffle_perm : ∀ {α : Type} (l : List α), (shuffle l).Perm l
  /-- `sort_unstable_by_key`. -/
  sortByKey : {α : Type} → (α → Nat) → List α → List α
  sortByKey_perm : ∀ {α : Type} (key : α → Nat) (l : List α), (sortByKey key l).Perm l
  sortByKey_pairwise : ∀ {α : Type} (key : α → Nat) (l : List α),
    (sortByKey key l).Pairwise fun a b ↦ key a ≤ key b
  /-- `rayon::current_num_threads`. -/
  threads : Nat
  /-- Of the blocks received before a stream error, how many had been processed. -/
  finished : Nat → Nat
  finished_le : ∀ n, finished n ≤ n

/-- Parameters of a shielded block range sync. -/
structure SyncParams where
  viewingKey : String
  startHeight : UInt32
  endHeight : UInt32
  network : Option String
  orchardOnly : Bool
  maxRetries : Option UInt32
  /-- Hex nullifiers of notes received in previous scans that are still unspent. -/
  knownNullifiers : List String
deriving DecidableEq, Repr

/-- A single shielded note found during decryption. -/
structure ShieldedNote where
  amount : Nat
  transferType : TransferType
  memo : String
  pool : ShieldedPool
  nullifier : Option String
  rho : Option String
  rseed : Option String
  cmx : Option String
  /-- Leaf index of this note in its pool's commitment tree. -/
  position : Option Nat
  recipient : Option String
  isSpent : Bool
deriving DecidableEq

/-- A matched and fully-decrypted shielded transaction. -/
structure ShieldedTransaction where
  txid : String
  hex : String
  blockHeight : Nat
  blockHash : String
  blockTime : Nat
  feeZatoshis : Nat
  transparentOutZatoshis : Nat
  hasTransparentInputs : Bool
  saplingNotes : List ShieldedNote
  orchardNotes : List ShieldedNote
  ironwoodNotes : List ShieldedNote
deriving DecidableEq

/-- Result returned after scanning a block range. -/
structure SyncResult where
  transactions : List ShieldedTransaction
  blocksScanned : Nat
  spentKnownNullifiers : List String
deriving DecidableEq

/-- A successful scan with the callbacks it made. -/
structure ScanOutput where
  result : SyncResult
  /-- The `on_transaction` calls, in order. -/
  emitted : List ShieldedTransaction
  /-- The number of `on_block_done` calls. -/
  blocksDone : Nat

/-- A failed scan: it made no `on_transaction` call. -/
structure ScanFailure where
  failure : Failure
  blocksDone : Nat

/-- Intermediate result of the trial-decrypt pipeline for one compact block. -/
structure TrialResult where
  height : Nat
  hash : String
  time : Nat
  matchedTxids : List String
  /-- Per transaction, the nullifiers its Orchard actions spend. -/
  txNullifiers : List (String × List Bytes32)
  /-- The same for Ironwood actions. -/
  txIronwoodNullifiers : List (String × List Bytes32)
  orchardTreeSizeAfter : Option Nat
  ironwoodTreeSizeAfter : Option Nat
  txOrchardActionCounts : List (String × Nat)
  txIronwoodActionCounts : List (String × Nat)
deriving DecidableEq

/-! ## Trial decryption of the stream -/

/-- Bytes in display order: reversed, then hex. -/
def displayHex (bs : List UInt8) : String := Hex.encode bs.reverse

def protoSaplingToCompact (p : Proto.CompactSaplingOutput) : CompactSaplingOutput :=
  ⟨p.cmu, p.ephemeralKey, p.ciphertext⟩

def protoOrchardToCompact (p : Proto.CompactOrchardAction) : CompactOrchardAction :=
  ⟨p.nullifier, p.cmx, p.ephemeralKey, p.ciphertext⟩

/-- The compact form of one transaction; `orchardOnly` strips the Sapling outputs. -/
def toCompactTransaction (orchardOnly : Bool) (ctx : Proto.CompactTx) : CompactTransaction :=
  { txid := displayHex ctx.txid
    saplingOutputs := if orchardOnly then [] else ctx.outputs.map protoSaplingToCompact
    orchardActions := ctx.actions.map protoOrchardToCompact
    ironwoodActions := ctx.ironwoodActions.map protoOrchardToCompact }

/-- The well-formed nullifiers of a list of actions. -/
def actionNullifiers (actions : List CompactOrchardAction) : List Bytes32 :=
  actions.filterMap fun a ↦ Arr.tryFrom 32 a.nf

/-- The fast path: nothing of the block is looked at. -/
def skipsBlock (orchardOnly : Bool) (block : Proto.CompactBlock) : Bool :=
  orchardOnly && block.vtx.all fun tx ↦ tx.actions.isEmpty && tx.ironwoodActions.isEmpty

variable (U : NoteCrypto)

/-- Trial-decrypt one compact block. -/
def processCompactBlock (threads : Nat) (ivks : PreparedIvks U) (orchardOnly : Bool)
    (network : Network) (block : Proto.CompactBlock) : TrialResult :=
  let height := asU32 block.height
  let hash := displayHex block.hash
  if skipsBlock orchardOnly block then
    { height, hash, time := block.time
      matchedTxids := []
      txNullifiers := []
      txIronwoodNullifiers := []
      orchardTreeSizeAfter := none
      ironwoodTreeSizeAfter := none
      txOrchardActionCounts := []
      txIronwoodActionCounts := [] }
  else
    let compactTxs := block.vtx.map (toCompactTransaction orchardOnly)
    { height, hash, time := block.time
      matchedTxids := trialDecryptBlock U threads compactTxs ivks height network
      txNullifiers := compactTxs.map fun tx ↦ (tx.txid, actionNullifiers tx.orchardActions)
      txIronwoodNullifiers :=
        compactTxs.map fun tx ↦ (tx.txid, actionNullifiers tx.ironwoodActions)
      orchardTreeSizeAfter :=
        (block.chainMetadata.map fun m ↦ m.orchardCommitmentTreeSize.toNat).filter (0 < ·)
      ironwoodTreeSizeAfter :=
        (block.chainMetadata.map fun m ↦ m.ironwoodCommitmentTreeSize.toNat).filter (0 < ·)
      txOrchardActionCounts := compactTxs.map fun tx ↦ (tx.txid, asU32 tx.orchardActions.length)
      txIronwoodActionCounts :=
        compactTxs.map fun tx ↦ (tx.txid, asU32 tx.ironwoodActions.length) }

/-! ## Positions -/

/-- The offset of each transaction's first action inside its block. -/
def txActionStartMap (actionCounts : List (String × Nat)) : AList fun _ : String ↦ Nat :=
  (actionCounts.foldl (fun (m, cumulative) (txid, count) ↦
    (m.insert txid cumulative, cumulative + count)) ((∅ : AList fun _ : String ↦ Nat), 0)).1

/-- The tree size before a block, for one pool: counted back from the size after it. -/
def treeSizeBefore (treeSizeAfter : Option Nat) (actionCounts : List (String × Nat)) :
    Option Nat :=
  let totalActionsInBlock := asU32 (actionCounts.map Prod.snd).sum
  treeSizeAfter.bind fun sz ↦ if sz < totalActionsInBlock then none
    else some (sz - totalActionsInBlock)

/-- Tree size before the block and action offset of each transaction, for one pool. -/
def computePoolPositionCtx (treeSizeAfter : Option Nat) (actionCounts : List (String × Nat)) :
    Option Nat × AList fun _ : String ↦ Nat :=
  (treeSizeBefore treeSizeAfter actionCounts, txActionStartMap actionCounts)

def computeBlockPositionCtx (result : TrialResult) : Option Nat × AList fun _ : String ↦ Nat :=
  computePoolPositionCtx result.orchardTreeSizeAfter result.txOrchardActionCounts

def computeIronwoodBlockPositionCtx (result : TrialResult) :
    Option Nat × AList fun _ : String ↦ Nat :=
  computePoolPositionCtx result.ironwoodTreeSizeAfter result.txIronwoodActionCounts

/-! ## Fetching a transaction -/

/-- Per-block context of a fetch. -/
structure BlockFetchCtx where
  txidHex : String
  height : Nat
  blockHash : String
  blockTime : Nat
  treeSizeBeforeBlock : Option Nat
  txActionStart : Nat
  ironwoodTreeSizeBeforeBlock : Option Nat
  ironwoodTxActionStart : Nat

/-- The context of a transaction of a block; an unknown txid gets offset zero. -/
def blockFetchCtx (result : TrialResult) (txidHex : String) : BlockFetchCtx :=
  let (treeSize, startMap) := computeBlockPositionCtx result
  let (ironwoodTreeSize, ironwoodStartMap) := computeIronwoodBlockPositionCtx result
  { txidHex
    height := result.height
    blockHash := result.hash
    blockTime := result.time
    treeSizeBeforeBlock := treeSize
    txActionStart := (startMap.lookup txidHex).getD 0
    ironwoodTreeSizeBeforeBlock := ironwoodTreeSize
    ironwoodTxActionStart := (ironwoodStartMap.lookup txidHex).getD 0 }

/-- A Sapling note: no spending field is kept. -/
def saplingNote (o : DecryptedOutput) : ShieldedNote :=
  { amount := o.amount
    transferType := o.transferType
    memo := o.memo
    pool := o.pool
    nullifier := none
    rho := none
    rseed := none
    cmx := none
    position := none
    recipient := none
    isSpent := false }

/-- An Orchard or Ironwood note, positioned by its own pool's counter. -/
def orchardFamilyNote (treeSizeBeforeBlock : Option Nat) (txActionStart : Nat)
    (o : DecryptedOutput) : ShieldedNote :=
  { amount := o.amount
    transferType := o.transferType
    memo := o.memo
    pool := o.pool
    nullifier := o.nullifier.map fun b ↦ Hex.encode b.1
    rho := o.rho.map fun b ↦ Hex.encode b.1
    rseed := o.rseed.map fun b ↦ Hex.encode b.1
    cmx := o.cmx.map fun b ↦ Hex.encode b.1
    position := treeSizeBeforeBlock.bind fun treeSize ↦
      o.actionIndex.map fun idx ↦ treeSize + txActionStart + idx
    recipient := o.recipient.map fun b ↦ Hex.encode b.1
    isSpent := false }

/-- The record of a decrypted transaction, with no note marked spent yet. -/
def shieldedTransaction (ctx : BlockFetchCtx) (txHex : String) (d : DecryptedTx) :
    ShieldedTransaction :=
  { txid := ctx.txidHex
    hex := txHex
    blockHeight := ctx.height
    blockHash := ctx.blockHash
    blockTime := ctx.blockTime
    feeZatoshis := d.feeZatoshis
    transparentOutZatoshis := d.transparentOutZatoshis
    hasTransparentInputs := d.hasTransparentInputs
    saplingNotes := d.saplingOutputs.map saplingNote
    orchardNotes :=
      d.orchardOutputs.map (orchardFamilyNote ctx.treeSizeBeforeBlock ctx.txActionStart)
    ironwoodNotes := d.ironwoodOutputs.map
      (orchardFamilyNote ctx.ironwoodTreeSizeBeforeBlock ctx.ironwoodTxActionStart) }

/-- The nullifiers of the Orchard and Ironwood notes paid to the account. -/
def receivedNullifiers (d : DecryptedTx) : List Bytes32 :=
  (d.orchardOutputs ++ d.ironwoodOutputs).filterMap DecryptedOutput.nullifier

/-- Fetch the bytes of a transaction and decrypt them; a transaction that cannot be
parsed is skipped. -/
def fetchAndDecryptTx (srv : Server) (ufvk : U.Ufvk) (network : Network) (ctx : BlockFetchCtx) :
    Except Failure (Option (ShieldedTransaction × List Bytes32)) := do
  let txidBytes ← orFail (Hex.decode ctx.txidHex) fun e ↦ "txid hex decode: " ++ e.toString
  let rawTx ← orFail (srv.getTransaction ctx.height txidBytes.reverse) fun e ↦
    "GetTransaction failed for " ++ ctx.txidHex ++ ": " ++ e
  let txHex := Hex.encode rawTx
  match fullDecryptTxWithUfvk U txHex ufvk ctx.height network with
  | .error _ => pure none
  | .ok d => pure (some (shieldedTransaction ctx txHex d, receivedNullifiers d))

/-! ## Nullifiers -/

/-- Whether a byte offset is a character boundary of a text. -/
def isCharBoundary : List Char → Nat → Bool
  | _, 0 => true
  | [], _ + 1 => false
  | c :: cs, n + 1 => decide (c.utf8Size ≤ n + 1) && isCharBoundary cs (n + 1 - c.utf8Size)

/-- The slice `&h[..h.len().min(16)]` of a warning: it panics inside a character. -/
def excerpt (h : String) : Except Failure Unit :=
  if isCharBoundary h.toList (min h.utf8ByteSize 16) then pure () else throw .panic

/-- One `known_nullifiers` entry: skipped when malformed. -/
def decodeKnownNullifier (h : String) : Except Failure (Option Bytes32) :=
  match Hex.decode h with
  | .ok b => pure (Arr.tryFrom 32 b)
  | .error _ => do
      excerpt h
      pure none

def decodeKnownNullifiers (ks : List String) : Except Failure (List Bytes32) :=
  collectM decodeKnownNullifier ks

/-- Marks one note whose hex nullifier is in `spent`. -/
def markNote (spent : List Bytes32) (note : ShieldedNote) : Except Failure ShieldedNote :=
  match note.nullifier with
  | none => pure note
  | some nfHex =>
      match Hex.decode nfHex with
      | .ok nfBytes =>
          match Arr.tryFrom 32 nfBytes with
          | some nf => pure (if nf ∈ spent then { note with isSpent := true } else note)
          | none => pure note
      | .error _ => do
          excerpt nfHex
          pure note

/-- Marks every note whose nullifier is in `spent`. -/
def markSpent (notes : List ShieldedNote) (spent : List Bytes32) :
    Except Failure (List ShieldedNote) :=
  notes.mapM (markNote spent)

/-- The nullifiers each transaction of a block spends, both pools merged. -/
def perTxidNfs (result : TrialResult) : AList fun _ : String ↦ List Bytes32 :=
  (result.txNullifiers ++ result.txIronwoodNullifiers).foldl
    (fun m (txid, nfs) ↦ m.insert txid ((m.lookup txid).getD [] ++ nfs)) ∅

/-- The distinct nullifiers of a pool that the range spends and we track. -/
def spentIn (ours : List Bytes32) (perTx : TrialResult → List (String × List Bytes32))
    (results : List TrialResult) : List Bytes32 :=
  (((results.flatMap perTx).flatMap Prod.snd).filter (· ∈ ours)).dedup

/-! ## The phases -/

variable (rt : Runtime) (srv : Server) (ufvk : U.Ufvk) (network : Network)

/-- Fetch one transaction of a block of the range. -/
def fetchOf (at' : TrialResult × String) :
    Except Failure (Option (ShieldedTransaction × List Bytes32)) :=
  fetchAndDecryptTx U srv ufvk network (blockFetchCtx at'.1 at'.2)

/-- What Phase 2 fetches: the trial-decryption matches. -/
def phase2Targets (results : List TrialResult) : List (TrialResult × String) :=
  results.flatMap fun r ↦ r.matchedTxids.map fun txid ↦ (r, txid)

/-- What Phase 4 fetches: the transactions not found yet that spend one of ours. -/
def phase4Targets (ours : List Bytes32) (alreadyFound : List String)
    (results : List TrialResult) : List (TrialResult × String) :=
  results.flatMap fun r ↦ (rt.shuffle (perTxidNfs r).entries).filterMap fun ⟨txid, nfs⟩ ↦
    if txid ∈ alreadyFound then none
    else if nfs.any (· ∈ ours) then some (r, txid)
    else none

/-- Phase 4: add the spending transactions, then restore the height order. -/
def phase4 (ours : List Bytes32) (results : List TrialResult)
    (found : List ShieldedTransaction) : Except Failure (List ShieldedTransaction) :=
  if ours = [] then pure found
  else do
    let alreadyFound := found.map ShieldedTransaction.txid
    let spending ← collectM (fetchOf U srv ufvk network)
      (phase4Targets rt ours alreadyFound results)
    pure (rt.sortByKey ShieldedTransaction.blockHeight (found ++ spending.map Prod.fst))

/-- Phase 5 on one transaction: each pool against its own spent set. -/
def markTransaction (spent spentIronwood : List Bytes32) (tx : ShieldedTransaction) :
    Except Failure ShieldedTransaction := do
  let orchardNotes ← markSpent tx.orchardNotes spent
  let ironwoodNotes ← markSpent tx.ironwoodNotes spentIronwood
  pure { tx with orchardNotes, ironwoodNotes }

/-- Phase 5: mark received notes as spent, when anything was spent. -/
def phase5 (spent spentIronwood : List Bytes32) (txs : List ShieldedTransaction) :
    Except Failure (List ShieldedTransaction) :=
  if spent = [] ∧ spentIronwood = [] then pure txs
  else txs.mapM (markTransaction spent spentIronwood)

/-- Everything after the block stream. -/
def scanResults (knownNullifiers : List String) (results : List TrialResult) :
    Except Failure SyncResult := do
  let known ← decodeKnownNullifiers knownNullifiers
  let matched ← collectM (fetchOf U srv ufvk network) (phase2Targets results)
  let ours := known ++ matched.flatMap Prod.snd
  let found ← phase4 U rt srv ufvk network ours results (matched.map Prod.fst)
  let spent := spentIn ours TrialResult.txNullifiers results
  let spentIronwood := spentIn ours TrialResult.txIronwoodNullifiers results
  let transactions ← phase5 spent spentIronwood found
  let knownNfSet ← decodeKnownNullifiers knownNullifiers
  pure
    { transactions
      blocksScanned := asU32 results.length
      spentKnownNullifiers :=
        ((rt.shuffle spent ++ rt.shuffle spentIronwood).filter (· ∈ knownNfSet)).map
          fun nf ↦ Hex.encode nf.1 }

/-! ## The scan -/

/-- Parse the network string, prepare the IVKs, and decode the UFVK. -/
def parseSyncKeys (networkStr : Option String) (viewingKey : String) :
    Except Failure (Network × PreparedIvks U × U.Ufvk) := do
  let network ← orFail (parseNetwork networkStr) Error.toString
  let ivks ← orFail (prepareIvks U viewingKey) Error.toString
  let ufvk ← orFail (U.decodeUfvk viewingKey) id
  pure (network, ivks, ufvk)

/-- A failure after `n` blocks were reported done. -/
def afterBlocks {α : Type} (n : Nat) (x : Except Failure α) : Except ScanFailure α :=
  x.mapError fun failure ↦ { failure, blocksDone := n }

/-- The streaming pipeline: results in completion order, then sorted by height. -/
def streamBlocks (ivks : PreparedIvks U) (orchardOnly : Bool)
    (stream : List (Except String Proto.CompactBlock)) : Except ScanFailure (List TrialResult) := do
  let received := (stream.takeWhile fun item ↦ item.isOk).length
  let blocks ← afterBlocks (rt.finished received)
    (readStream (fun e ↦ "stream error: " ++ e) stream)
  pure (rt.sortByKey TrialResult.height (rt.shuffle
    (blocks.map (processCompactBlock U rt.threads ivks orchardOnly network))))

/-- Scan exactly one contiguous block range, with no retry. -/
def runSyncInner (p : SyncParams) : Except ScanFailure ScanOutput := do
  let (network, ivks, ufvk) ← afterBlocks 0 (parseSyncKeys U p.network p.viewingKey)
  afterBlocks 0 (orFail srv.connect id)
  let stream ← afterBlocks 0 (orFail
    (srv.getBlockRange p.startHeight.toNat p.endHeight.toNat) fun e ↦ "GetBlockRange failed: " ++ e)
  let results ← streamBlocks U rt network ivks p.orchardOnly stream
  let result ← afterBlocks results.length
    (scanResults U rt srv ufvk network p.knownNullifiers results)
  pure { result, emitted := result.transactions, blocksDone := results.length }

end LedgerZcash
