import LedgerZcash.Crypto.Network

/-!
# Trial decryption and full decryption

The crypto crate's two ways of finding the notes of a viewing key: `trialDecryptBlock`
on the compact outputs of a block, and `fullDecryptTxWithUfvk` on the raw bytes of one
transaction.  Keys, note encryption and transaction parsing are upstream; `NoteCrypto`
collects what the code calls there.  What the two paths share with each other — and
where they differ, in the height table of `zip212Enforcement` — is this crate's own.
-/

namespace LedgerZcash

open Hex

/-! ## Compact data -/

/-- A compact Sapling output as found in a compact block. -/
structure CompactSaplingOutput where
  cmu : List UInt8
  ephemeralKey : List UInt8
  ciphertext : List UInt8
deriving DecidableEq, Repr

/-- A compact Orchard-family action as found in a compact block. -/
structure CompactOrchardAction where
  /-- The nullifier this action spends. -/
  nf : List UInt8
  cmx : List UInt8
  ephemeralKey : List UInt8
  ciphertext : List UInt8
deriving DecidableEq, Repr

/-- A compact transaction: what trial decryption needs of it. -/
structure CompactTransaction where
  /-- Display-order hex. -/
  txid : String
  saplingOutputs : List CompactSaplingOutput
  orchardActions : List CompactOrchardAction
  ironwoodActions : List CompactOrchardAction
deriving DecidableEq, Repr

/-- `COMPACT_NOTE_SIZE`, the same for both protocols. -/
def compactNoteSize : Nat := 52

/-- The parsed form of a compact Sapling output. -/
structure CompactOutputDescription where
  cmu : Bytes32
  ephemeralKey : Bytes32
  encCiphertext : Arr compactNoteSize
deriving DecidableEq

/-- The parsed form of a compact action. -/
structure CompactAction where
  nullifier : Bytes32
  cmx : Bytes32
  ephemeralKey : Bytes32
  encCiphertext : Arr compactNoteSize
deriving DecidableEq

/-- Which Sapling note plaintext versions a decryption accepts. -/
inductive Zip212Enforcement where
  | off
  | gracePeriod
  | on
deriving DecidableEq, Repr

/-- `zip32::Scope`. -/
inductive Scope where
  | external
  | internal
deriving DecidableEq, Repr

/-- `zcash_protocol::ShieldedPool`. -/
inductive ShieldedPool where
  | sapling
  | orchard
  | ironwood
deriving DecidableEq, Repr

/-- `zcash_client_backend::TransferType`. -/
inductive UpstreamTransferType where
  | incoming
  | walletInternal
  | outgoing
deriving DecidableEq, Repr

/-- The three strings `"incoming"`, `"outgoing"` and `"internal"`. -/
inductive TransferType where
  | incoming
  | outgoing
  | internal
deriving DecidableEq, Repr

/-! ## Upstream -/

/-- A batched decryption: one answer per input, and no input influences another. -/
structure BatchDecryption (Ivk Output : Type) where
  /-- The index of the first key that decrypts the output. -/
  single : List Ivk → Output → Option Nat
  batch : List Ivk → List Output → List (Option Nat)
  batch_eq : ∀ ivks outs, batch ivks outs = outs.map (single ivks)

/-- An `orchard::Note`, through its accessors. -/
structure OrchardNote where
  recipient : Arr 43
  value : Nat
  rho : Bytes32
  rseed : Bytes32
  /-- The extracted commitment of the note. -/
  cmx : Bytes32
deriving DecidableEq

/-- One Orchard-family output of `decrypt_transaction`. -/
structure UpstreamOrchardOutput where
  /-- The action's index in its bundle. -/
  index : Nat
  note : OrchardNote
  memo : List UInt8
  transferType : UpstreamTransferType
  valuePool : ShieldedPool
deriving DecidableEq

/-- One Sapling output of `decrypt_transaction`. -/
structure UpstreamSaplingOutput where
  value : Nat
  recipient : Arr 43
  memo : List UInt8
  transferType : UpstreamTransferType
  valuePool : ShieldedPool
deriving DecidableEq

/-- The result of `decrypt_transaction` for a single account. -/
structure UpstreamDecryptedTransaction where
  saplingOutputs : List UpstreamSaplingOutput
  orchardOutputs : List UpstreamOrchardOutput
  ironwoodOutputs : List UpstreamOrchardOutput
deriving DecidableEq

/-- What the code calls in the upstream key, note-encryption and transaction crates. -/
structure NoteCrypto where
  Ufvk : Type
  SaplingIvk : Type
  OrchardFvk : Type
  OrchardIvk : Type
  Transaction : Type
  /-- `Ufvk::decode`, then `UnifiedFullViewingKey::parse`, with the error texts. -/
  decodeUfvk : String → Except String Ufvk
  /-- `ufvk.sapling()` and its `to_ivk`. -/
  saplingIvk : Ufvk → Option (Scope → SaplingIvk)
  /-- `ufvk.orchard()`. -/
  orchard : Ufvk → Option OrchardFvk
  orchardIvk : OrchardFvk → Scope → OrchardIvk
  /-- Whether `ExtractedNoteCommitment::from_bytes` accepts the bytes. -/
  validCmu : Bytes32 → Bool
  validCmx : Bytes32 → Bool
  validNullifier : Bytes32 → Bool
  saplingBatch : BatchDecryption SaplingIvk (Zip212Enforcement × CompactOutputDescription)
  orchardBatch : BatchDecryption OrchardIvk CompactAction
  ironwoodBatch : BatchDecryption OrchardIvk CompactAction
  /-- `Transaction::read` under the branch of a height. -/
  readTransaction : Network → Nat → List UInt8 → Except String Transaction
  decryptTransaction : Network → Nat → Transaction → Ufvk → UpstreamDecryptedTransaction
  /-- `note.nullifier(fvk)`. -/
  nullifier : OrchardNote → OrchardFvk → Bytes32
  /-- The output values of the transparent bundle, and the number of its inputs. -/
  transparentBundle : Transaction → Option (List Nat × Nat)
  /-- `fee_paid` with no previous output known. -/
  feePaid : Transaction → Option Nat

/-! ## Keys -/

/-- The incoming viewing keys of a UFVK: external first, then internal. -/
structure PreparedIvks (U : NoteCrypto) where
  sapling : List (U.SaplingIvk × TransferType)
  orchard : List (U.OrchardIvk × TransferType)

variable (U : NoteCrypto)

/-- Derive the trial-decryption keys of a parsed UFVK. -/
def prepareIvksOf (ufvk : U.Ufvk) : PreparedIvks U where
  sapling := match U.saplingIvk ufvk with
    | some toIvk => [(toIvk .external, .incoming), (toIvk .internal, .internal)]
    | none => []
  orchard := match U.orchard ufvk with
    | some fvk => [(U.orchardIvk fvk .external, .incoming), (U.orchardIvk fvk .internal, .internal)]
    | none => []

/-- `prepare_ivks`: parse the UFVK, then derive. -/
def prepareIvks (viewingKey : String) : Except Error (PreparedIvks U) :=
  match U.decodeUfvk viewingKey with
  | .ok ufvk => .ok (prepareIvksOf U ufvk)
  | .error e => .error (.decrypt e)

/-! ## Compact outputs -/

/-- The first height of the table in `zip212Enforcement`. -/
def heartwood : Network → Nat
  | .mainNetwork => 903800
  | .testNetwork => 1028500

/-- The ZIP-212 rule the scanner applies at a height. -/
def zip212Enforcement (network : Network) (height : Nat) : Zip212Enforcement :=
  if heartwood network ≤ height then
    if height < heartwood network + 32256 then .gracePeriod else .on
  else .off

/-- The error of a field that is not as long as it must be. -/
def lengthError (field : String) (expected got : Nat) : Error :=
  .decrypt (field ++ " must be " ++ expected.repr ++ " bytes, got " ++ got.repr)

/-- `try_into` a fixed length, with the error naming the field. -/
def parseField (field : String) (n : Nat) (bs : List UInt8) : Except Error (Arr n) :=
  match Arr.tryFrom n bs with
  | some a => .ok a
  | none => .error (lengthError field n bs.length)

def parseCompactSaplingOutput (output : CompactSaplingOutput) :
    Except Error CompactOutputDescription := do
  let cmu ← parseField "cmu" 32 output.cmu
  let epk ← parseField "ephemeral_key" 32 output.ephemeralKey
  let ct ← parseField "ciphertext" compactNoteSize output.ciphertext
  if U.validCmu cmu then pure ⟨cmu, epk, ct⟩
  else throw (.decrypt "invalid cmu field element")

/-- A missing or malformed nullifier is replaced by zero: trial decryption ignores it. -/
def parseCompactOrchardAction (action : CompactOrchardAction) : Except Error CompactAction := do
  let cmx ← parseField "cmx" 32 action.cmx
  let ek ← parseField "ephemeral_key" 32 action.ephemeralKey
  let ct ← parseField "ciphertext" compactNoteSize action.ciphertext
  if U.validCmx cmx then
    let nf := (Arr.tryFrom 32 action.nf).getD (fill 32 0)
    pure ⟨if U.validNullifier nf then nf else fill 32 0, cmx, ek, ct⟩
  else throw (.decrypt "invalid cmx commitment")

/-! ## Trial decryption of a block -/

/-- `par_chunks`: consecutive chunks of `size` elements, the last one possibly shorter. -/
def parChunks {α : Type} (size : Nat) (l : List α) : List (List α) :=
  (List.toChunksAux (size - 1) l 0).2

/-- The parsed outputs of one pool, tagged with the index of their transaction;
malformed outputs are skipped. -/
def taggedOutputs {α β : Type} (outputs : CompactTransaction → List α)
    (parse : α → Except Error β) (txs : List CompactTransaction) : List (Nat × β) :=
  txs.zipIdx.flatMap fun (tx, i) ↦
    (outputs tx).filterMap fun o ↦ (parse o).toOption.map fun parsed ↦ (i, parsed)

/-- The indices of the transactions with a decrypted output: chunks over `threads`
workers, one batch a chunk, results matched with the tags by position. -/
def matchedIndices {Ivk Output : Type} (D : BatchDecryption Ivk Output) (ivks : List Ivk)
    (threads : Nat) (raw : List (Nat × Output)) : List Nat :=
  (parChunks (max (raw.length / threads) 1) raw).flatMap fun chunk ↦
    (chunk.zip (D.batch ivks (chunk.map Prod.snd))).filterMap fun (tagged, r) ↦
      r.map fun _ ↦ tagged.1

def saplingMatched (ivks : PreparedIvks U) (threads : Nat) (zip212 : Zip212Enforcement)
    (txs : List CompactTransaction) : List Nat :=
  matchedIndices U.saplingBatch (ivks.sapling.map Prod.fst) threads
    ((taggedOutputs CompactTransaction.saplingOutputs (parseCompactSaplingOutput U) txs).map
      fun (i, o) ↦ (i, (zip212, o)))

def orchardMatched (ivks : PreparedIvks U) (threads : Nat) (txs : List CompactTransaction) :
    List Nat :=
  matchedIndices U.orchardBatch (ivks.orchard.map Prod.fst) threads
    (taggedOutputs CompactTransaction.orchardActions (parseCompactOrchardAction U) txs)

/-- Same actions, same keys as Orchard; only the decryption domain differs. -/
def ironwoodMatched (ivks : PreparedIvks U) (threads : Nat) (txs : List CompactTransaction) :
    List Nat :=
  matchedIndices U.ironwoodBatch (ivks.orchard.map Prod.fst) threads
    (taggedOutputs CompactTransaction.ironwoodActions (parseCompactOrchardAction U) txs)

/-- The txids of the transactions with an output that decrypts, in input order.
`threads` is `rayon::current_num_threads`. -/
def trialDecryptBlock (threads : Nat) (txs : List CompactTransaction) (ivks : PreparedIvks U)
    (height : Nat) (network : Network) : List String :=
  let nThreads := max threads 1
  let sapling := saplingMatched U ivks nThreads (zip212Enforcement network height) txs
  let orchard := orchardMatched U ivks nThreads txs
  let ironwood := ironwoodMatched U ivks nThreads txs
  txs.zipIdx.filterMap fun (tx, i) ↦
    if i ∈ sapling ∨ i ∈ orchard ∨ i ∈ ironwood then some tx.txid else none

/-! ## Full decryption of a transaction -/

/-- A single decrypted note. -/
structure DecryptedOutput where
  amount : Nat
  memo : String
  transferType : TransferType
  pool : ShieldedPool
  nullifier : Option Bytes32
  rho : Option Bytes32
  rseed : Option Bytes32
  cmx : Option Bytes32
  recipient : Option (Arr 43)
  actionIndex : Option Nat
deriving DecidableEq

/-- All decrypted outputs of one transaction. -/
structure DecryptedTx where
  saplingOutputs : List DecryptedOutput
  orchardOutputs : List DecryptedOutput
  ironwoodOutputs : List DecryptedOutput
  feeZatoshis : Nat
  transparentOutZatoshis : Nat
  hasTransparentInputs : Bool
deriving DecidableEq

/-- The text before the first zero byte; empty when that is not UTF-8. -/
def decodeMemo (memo : List UInt8) : String :=
  let text := memo.takeWhile (· ≠ 0)
  (String.fromUTF8? ⟨text.toArray⟩).getD ""

def decodeTransferType : UpstreamTransferType → TransferType
  | .incoming => .incoming
  | .outgoing => .outgoing
  | .walletInternal => .internal

/-- One upstream Orchard-family output.  The spending fields are present for a note
paid to the account, and absent for one the account paid. -/
def mapOrchardFamilyOutput (f : UpstreamOrchardOutput) (ufvk : U.Ufvk) : DecryptedOutput :=
  let isOutgoing := f.transferType = .outgoing
  { amount := f.note.value
    memo := decodeMemo f.memo
    transferType := decodeTransferType f.transferType
    pool := f.valuePool
    nullifier := if isOutgoing then none else (U.orchard ufvk).map (U.nullifier f.note)
    rho := if isOutgoing then none else some f.note.rho
    rseed := if isOutgoing then none else some f.note.rseed
    cmx := if isOutgoing then none else some f.note.cmx
    recipient := some f.note.recipient
    actionIndex := if isOutgoing then none else some (asU32 f.index) }

def mapSaplingOutput (f : UpstreamSaplingOutput) : DecryptedOutput :=
  { amount := f.value
    memo := decodeMemo f.memo
    transferType := decodeTransferType f.transferType
    pool := f.valuePool
    nullifier := none
    rho := none
    rseed := none
    cmx := none
    recipient := some f.recipient
    actionIndex := none }

/-- Full decryption of a raw transaction under a parsed UFVK. -/
def fullDecryptTxWithUfvk (txHex : String) (ufvk : U.Ufvk) (height : Nat) (network : Network) :
    Except Error DecryptedTx := do
  let txBytes ← (Hex.decode txHex).mapError fun e ↦
    Error.decrypt ("hex decode failed: " ++ e.debug)
  let tx ← (U.readTransaction network height txBytes).mapError fun e ↦
    Error.decrypt ("TX parse failed: " ++ e)
  let decrypted := U.decryptTransaction network height tx ufvk
  let (transparentOut, hasInputs) := match U.transparentBundle tx with
    | some (vout, vin) => (vout.sum, decide (vin ≠ 0))
    | none => (0, false)
  pure
    { saplingOutputs := decrypted.saplingOutputs.map mapSaplingOutput
      orchardOutputs := decrypted.orchardOutputs.map (mapOrchardFamilyOutput U · ufvk)
      ironwoodOutputs := decrypted.ironwoodOutputs.map (mapOrchardFamilyOutput U · ufvk)
      feeZatoshis := (U.feePaid tx).getD 0
      transparentOutZatoshis := transparentOut
      hasTransparentInputs := hasInputs }

end LedgerZcash
