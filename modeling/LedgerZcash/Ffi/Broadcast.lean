import LedgerZcash.Crypto.Signatures
import LedgerZcash.Sync.Details
import LedgerZcash.Sync.Splits

/-!
# From the signatures to the chain

JavaScript hands the device's signatures over as hex, gets a transaction and its id back, and
broadcasts the transaction.  The id is computed twice: from the extracted transaction, and again
from the bytes on their way to the node.  Later the same id comes from the compact blocks, and a
caller asks for details by it.  All of them write it in the display order, so that a broadcast
transaction is found again once it is mined (`txid_reconciles`).
-/

namespace LedgerZcash

open Hex Collect

/-! ## Finalizing -/

/-- Decode one `spendAuthSig`; the error is the tail of the caller's. -/
def parseSpendAuthSigHex (s : String) : Except String (Arr 64) := do
  let v ← (Hex.decode s).mapError fun e ↦ "hex decode: " ++ e.toString
  match Arr.tryFrom 64 v with
  | some sig => .ok sig
  | none => .error ("must be 64 bytes (got " ++ v.length.repr ++ " bytes)")

namespace Napi

structure FinalizeTransactionParams where
  pczt : String
  orchardSignatures : List String
  /-- Omitted like an empty list. -/
  ironwoodSignatures : Option (List String)
  transparentSignatures : List String

structure FinalizeTransactionResult where
  txHex : String
  /-- Display order. -/
  txid : String
deriving DecidableEq

end Napi

/-- A list of texts, decoded one by one; an error names the field and the index. -/
def decodeEach {α : Type} (decode : String → Except String α) (field : String)
    (texts : List String) : Except Failure (List α) :=
  texts.zipIdx.mapM fun x ↦ orFail (decode x.1) fun e ↦ field ++ "[" ++ x.2.repr ++ "] " ++ e

def finalizeInputs (params : Napi.FinalizeTransactionParams) : Except Failure FinalizeInputs := do
  let pcztBytes ← orFail (Hex.decode params.pczt) fun e ↦ "pczt hex decode: " ++ e.toString
  let orchardSignatures ← decodeEach parseSpendAuthSigHex "orchard_signatures"
    params.orchardSignatures
  let ironwoodSignatures ← decodeEach parseSpendAuthSigHex "ironwood_signatures"
    (params.ironwoodSignatures.getD [])
  let transparentSignatures ← decodeEach
    (fun s ↦ (Hex.decode s).mapError fun e ↦ "hex decode: " ++ e.toString)
    "transparent_signatures" params.transparentSignatures
  pure { pcztBytes, orchardSignatures, ironwoodSignatures, transparentSignatures }

/-- The result, its txid in display order. -/
def finalizeResult (out : FinalizeOutput) : Napi.FinalizeTransactionResult where
  txHex := Hex.encode out.txBytes
  txid := Hex.encode out.txid.1.reverse

section Finalize

variable {Path : Type} {T : CraftTypes Path} (P : CraftUpstream T) (V : PcztView T)
  (U : FinalizeUpstream T)

/-- Inject device signatures into a PCZT and extract the signed transaction. -/
def Napi.finalizeTransaction (params : FinalizeTransactionParams) :
    Except Failure FinalizeTransactionResult := do
  let inputs ← finalizeInputs params
  let out ← orFail (LedgerZcash.finalizeTransaction P V U inputs) Error.toString
  pure (finalizeResult out)

end Finalize

/-! ## Broadcasting -/

structure Proto.SendResponse where
  errorCode : Int
  errorMessage : String
deriving DecidableEq

/-- The endpoint that a transaction is sent to. -/
structure Node where
  connect : Except String Unit
  sendTransaction : List UInt8 → Except String Proto.SendResponse

/-- How a serialized transaction is read. -/
structure TxReader {Path : Type} {T : CraftTypes Path} (U : FinalizeUpstream T) where
  TxVersion : Type
  /-- `TxVersion::read`. -/
  readVersion : List UInt8 → Except String TxVersion
  /-- `TxVersion::V5 | TxVersion::V6`. -/
  isV5OrV6 : TxVersion → Bool
  /-- `{:?}`. -/
  debugVersion : TxVersion → String
  /-- `Transaction::read`. -/
  read : List UInt8 → Except String U.Transaction

/-- An error code of zero accepts the transaction. -/
def interpretSendResponse (resp : Proto.SendResponse) : Except Failure Unit :=
  refuseIf (resp.errorCode ≠ 0) (Failure.error ("SendTransaction rejected (code " ++
    resp.errorCode.repr ++ "): " ++ resp.errorMessage))

section Broadcast

variable {Path : Type} {T : CraftTypes Path} {U : FinalizeUpstream T} (R : TxReader U)
  (node : Node)

/-- The txid of a serialized V5 or V6 transaction, in display order. -/
def txidFromTxBytes (txBytes : List UInt8) : Except Failure String := do
  let version ← orFail (R.readVersion txBytes) fun e ↦
    "txid_from_tx_bytes: version parse failed: " ++ e
  refuseIf (!R.isV5OrV6 version) (Failure.error
    ("txid_from_tx_bytes: expected a V5 or V6 transaction, got " ++ R.debugVersion version))
  let tx ← orFail (R.read txBytes) fun e ↦ "txid_from_tx_bytes: Transaction::read failed: " ++ e
  pure (Hex.encode (U.txid tx).1.reverse)

/-- What the node answers to a transaction. -/
def Node.submit (txBytes : List UInt8) : Except Failure Unit := do
  let resp ← orFail (node.sendTransaction txBytes) fun e ↦ "SendTransaction failed: " ++ e
  interpretSendResponse resp

/-- Broadcast a serialized transaction; its txid is computed before it is sent. -/
def broadcastTransaction (txBytes : List UInt8) : Except Failure String := do
  orFail node.connect id
  let txid ← txidFromTxBytes R txBytes
  node.submit txBytes
  pure txid

def Napi.broadcastTransaction (txHex : String) : Except Failure String := do
  let txBytes ← orFail (Hex.decode txHex) fun e ↦ "tx_hex decode: " ++ e.toString
  LedgerZcash.broadcastTransaction R node txBytes

end Broadcast

/-! ## What arrives -/

/-- A spend authorization signature is 64 bytes of hex. -/
theorem parseSpendAuthSigHex_eq_ok {s : String} {sig : Arr 64} :
    parseSpendAuthSigHex s = .ok sig ↔ Hex.decode s = .ok sig.1 := by
  rw [parseSpendAuthSigHex, bind_eq_ok]
  constructor
  · rintro ⟨v, hv, h⟩
    split at h
    · rename_i sig' htry
      cases h
      unfold Arr.tryFrom at htry
      split at htry
      · cases htry
        exact mapError_eq_ok.mp hv
      · cases htry
    · cases h
  · intro h
    have htry : Arr.tryFrom 64 sig.1 = some sig := dif_pos sig.2
    refine ⟨sig.1, mapError_eq_ok.mpr h, ?_⟩
    rw [htry]

theorem decodeEach_eq_ok {α : Type} {decode : String → Except String α} {field : String}
    {texts : List String} {r : List α} :
    decodeEach decode field texts = .ok r ↔ List.Forall₂ (fun s a ↦ decode s = .ok a) texts r := by
  rw [decodeEach, mapM_eq_ok_iff]
  simp only [orFail_eq_ok]
  rw [← List.forall₂_map_left_iff (R := fun s a ↦ decode s = .ok a), List.zipIdx_map_fst]

/-- The request of a caller, decoded: the PCZT and every signature, in order. -/
structure FinalizeInputs.Decodes (inputs : FinalizeInputs)
    (params : Napi.FinalizeTransactionParams) : Prop where
  pczt : Hex.decode params.pczt = .ok inputs.pcztBytes
  orchard : List.Forall₂ (fun s (sig : Arr 64) ↦ Hex.decode s = .ok sig.1)
    params.orchardSignatures inputs.orchardSignatures
  ironwood : List.Forall₂ (fun s (sig : Arr 64) ↦ Hex.decode s = .ok sig.1)
    (params.ironwoodSignatures.getD []) inputs.ironwoodSignatures
  transparent : List.Forall₂ (fun s sig ↦ Hex.decode s = .ok sig) params.transparentSignatures
    inputs.transparentSignatures

theorem finalizeInputs_eq_ok {params : Napi.FinalizeTransactionParams} {inputs : FinalizeInputs} :
    finalizeInputs params = .ok inputs ↔ inputs.Decodes params := by
  simp only [finalizeInputs, bind_eq_ok, orFail_eq_ok, decodeEach_eq_ok, mapError_eq_ok,
    parseSpendAuthSigHex_eq_ok, pure_eq_ok]
  constructor
  · rintro ⟨pczt, hpczt, orchard, horchard, ironwood, hironwood, transparent, htransparent, rfl⟩
    exact ⟨hpczt, horchard, hironwood, htransparent⟩
  · rintro ⟨hpczt, horchard, hironwood, htransparent⟩
    exact ⟨_, hpczt, _, horchard, _, hironwood, _, htransparent, rfl⟩

/-! ## One id -/

/-- What the extractor returns is V5 or V6, and is read back from its bytes with its txid. -/
def TxReader.ReadsBack {Path : Type} {T : CraftTypes Path} {U : FinalizeUpstream T}
    (R : TxReader U) : Prop :=
  ∀ key pczt tx bytes, U.extract key pczt = .ok tx → U.write tx = .ok bytes →
    (∃ version, R.readVersion bytes = .ok version ∧ R.isV5OrV6 version = true) ∧
    ∃ tx', R.read bytes = .ok tx' ∧ U.txid tx' = U.txid tx

/-- A text by which a caller finds one transaction again. -/
structure Identifies (text : String) (txid : Bytes32) : Prop where
  /-- The details of the text are the fee and the payees of the transaction. -/
  details : ∀ (D : DetailsCrypto) (network : Network) (ufvk : Option String) (answer : TxAnswer)
    (request : DetailsRequest), request.txid = text →
    fetchAndRead D network ufvk answer request = (do
      let rawTx ← orFail (answer txid.1) fun e ↦ "GetTransaction failed: " ++ e
      let fee ← orFail (transactionFee D (Hex.encode rawTx) request.height network
        request.prevouts) Error.toString
      pure (fee, ufvk.elim [] fun ufvk ↦
        (outgoingPayees D (Hex.encode rawTx) ufvk request.height network).toOption.getD []))
  /-- Its outputs are priced under the text. -/
  prevout : ∀ outpoint : OutPoint, displayTxid outpoint.hash = text ↔ outpoint.hash = txid
  /-- A scan reports it under the text, and nothing else. -/
  scanned : ∀ (C : NoteCrypto) (rt : Runtime) (srv : Server) (p : SyncParams) (v : View C)
    (blocks : List Proto.CompactBlock) (out : ScanOutput), p.view C = .ok v →
    srv.getBlockRange p.startHeight.toNat p.endHeight.toNat = .ok (blocks.map .ok) →
    UniqueTxids blocks → runSyncInner C rt srv p = .ok out →
    ((∃ t ∈ out.result.transactions, t.txid = text) ↔
      ∃ l ∈ (v.ledger srv).detected (range blocks) (knownSet p.knownNullifiers),
        l.tx.txid = txid.1 ∧ (l.opened srv v).isSome = true)

/-- Display order identifies a transaction. -/
theorem identifies_display (txid : Bytes32) : Identifies (Hex.encode txid.1.reverse) txid where
  details D network ufvk answer request htext := by
    have hdecode : Hex.decode request.txid = .ok txid.1.reverse := by rw [htext, decode_encode]
    rw [fetchAndRead, hdecode]
    show (orFail (answer txid.1.reverse.reverse) _ >>= _) = _
    rw [List.reverse_reverse]
    cases ufvk with
    | none => rfl
    | some ufvk => rfl
  prevout outpoint := by
    show displayHex outpoint.hash.1 = displayHex txid.1 ↔ _
    rw [displayHex_inj, Subtype.ext_iff]
  scanned C rt srv p v blocks out hv hblocks hunique h := by
    have houtcome := outcome_of_runSyncInner hv hblocks h
    have htext : ∀ {l : Located} {S : Pool → Set Bytes32} {x : List UInt8 × DecryptedTx},
        (l.report v S x).txid = Hex.encode txid.1.reverse ↔ l.tx.txid = txid.1 :=
      displayHex_inj
    constructor
    · rintro ⟨t, ht, hid⟩
      obtain ⟨l, hl, x, hx, rfl⟩ := houtcome.sound t ht
      exact ⟨l, hl, htext.mp hid, Option.isSome_iff_exists.mpr ⟨x, hx⟩⟩
    · rintro ⟨l, hl, hid, hopened⟩
      obtain ⟨x, hx⟩ := Option.isSome_iff_exists.mp hopened
      exact ⟨_, houtcome.complete hunique l hl x hx, htext.mpr hid⟩

section Reconcile

variable {Path : Type} {T : CraftTypes Path} {P : CraftUpstream T} {V : PcztView T}
  {U : FinalizeUpstream T} {R : TxReader U}

/-- The bytes of a finalized transaction have its txid. -/
theorem txidFromTxBytes_of_finalize (hread : R.ReadsBack) {inputs : FinalizeInputs}
    {out : FinalizeOutput} (h : finalizeTransaction P V U inputs = .ok out) :
    txidFromTxBytes R out.txBytes = .ok (Hex.encode out.txid.1.reverse) := by
  obtain ⟨pczt, -, h⟩ := bind_eq_ok.mp h
  obtain ⟨signed, -, h⟩ := bind_eq_ok.mp h
  obtain ⟨finalized, -, h⟩ := bind_eq_ok.mp h
  obtain ⟨tx, htx, h⟩ := bind_eq_ok.mp h
  obtain ⟨bytes, hbytes, h⟩ := bind_eq_ok.mp h
  cases pure_eq_ok.mp h
  obtain ⟨⟨version, hversion, hmodern⟩, tx', hread, htxid⟩ :=
    hread _ _ _ _ (mapError_eq_ok.mp htx) (mapError_eq_ok.mp hbytes)
  refine bind_eq_ok.mpr ⟨version, orFail_eq_ok.mpr hversion, bind_eq_ok.mpr ⟨(), ?_,
    bind_eq_ok.mpr ⟨tx', orFail_eq_ok.mpr hread, ?_⟩⟩⟩
  · rw [refuseIf_eq_ok, hmodern]
    exact Bool.false_ne_true
  · rw [htxid]
    rfl

/-- The bytes of a result broadcast to any node: the node decides, and the txid is the result's. -/
theorem broadcast_of_finalize (hread : R.ReadsBack) {inputs : FinalizeInputs}
    {out : FinalizeOutput} (h : finalizeTransaction P V U inputs = .ok out) (node : Node) :
    Napi.broadcastTransaction R node (finalizeResult out).txHex = (do
      orFail node.connect id
      node.submit out.txBytes
      pure (finalizeResult out).txid) := by
  rw [Napi.broadcastTransaction, finalizeResult, decode_encode]
  show broadcastTransaction R node out.txBytes = _
  rw [broadcastTransaction, txidFromTxBytes_of_finalize hread h]
  rfl

/-- A result is that of the decoded request.  Its transaction can be broadcast, where the node
alone decides and the txid is again the one of the result; and the txid identifies it. -/
theorem txid_reconciles (hread : R.ReadsBack) (params : Napi.FinalizeTransactionParams)
    (res : Napi.FinalizeTransactionResult) :
    Napi.finalizeTransaction P V U params = .ok res ↔
      ∃ inputs out, inputs.Decodes params ∧ finalizeTransaction P V U inputs = .ok out ∧
        res.txHex = Hex.encode out.txBytes ∧ Identifies res.txid out.txid ∧
        ∀ node : Node, Napi.broadcastTransaction R node res.txHex = (do
          orFail node.connect id
          node.submit out.txBytes
          pure res.txid) := by
  constructor
  · intro h
    obtain ⟨inputs, hinputs, h⟩ := bind_eq_ok.mp h
    obtain ⟨out, hout, h⟩ := bind_eq_ok.mp h
    cases pure_eq_ok.mp h
    have hfinalize := orFail_eq_ok.mp hout
    exact ⟨inputs, out, finalizeInputs_eq_ok.mp hinputs, hfinalize, rfl,
      identifies_display out.txid, broadcast_of_finalize hread hfinalize⟩
  · rintro ⟨inputs, out, hinputs, hfinalize, htx, hid, -⟩
    -- a text that identifies the transaction is the one in display order
    have htext : displayTxid out.txid = res.txid := (hid.prevout ⟨out.txid, 0⟩).mpr rfl
    refine bind_eq_ok.mpr ⟨inputs, finalizeInputs_eq_ok.mpr hinputs, bind_eq_ok.mpr ⟨out,
      orFail_eq_ok.mpr hfinalize, pure_eq_ok.mpr ?_⟩⟩
    obtain ⟨txHex, txid⟩ := res
    cases htx
    cases htext
    rfl

end Reconcile

/-! ## The recorded payment -/

section Sample

/-- Transactions as their bytes, with the first one for a txid. -/
def bytesFinalizer : FinalizeUpstream recordTypes where
  __ := recordFinalizer
  Transaction := List UInt8
  extract _ pczt := .ok (PcztRecord.inputs pczt |>.filterMap Prod.snd)
  write := .ok
  txid tx := fill 32 (tx.headD 0)

def bytesReader : TxReader bytesFinalizer where
  TxVersion := Nat
  readVersion _ := .ok 5
  isV5OrV6 version := version = 5 || version = 6
  debugVersion := Nat.repr
  read := .ok

theorem bytesReader_readsBack : bytesReader.ReadsBack := by
  rintro key pczt tx bytes - hwrite
  cases hwrite
  exact ⟨⟨(5 : Nat), rfl, rfl⟩, tx, rfl, rfl⟩

/-- A node that accepts. -/
def acceptingNode : Node where
  connect := .ok ()
  sendTransaction _ := .ok ⟨0, ""⟩

/-- Two actions and a coin, signed. -/
def sampleDeviceSignatures : Napi.FinalizeTransactionParams where
  pczt := "01"
  orchardSignatures :=
    [Hex.encode (List.replicate 64 7), Hex.encode (List.replicate 64 8)]
  ironwoodSignatures := none
  transparentSignatures := ["300105"]

theorem txid_reconciles_sample : ∃ res,
    Napi.finalizeTransaction recording recordView bytesFinalizer sampleDeviceSignatures = .ok res ∧
      Napi.broadcastTransaction bytesReader acceptingNode res.txHex = .ok res.txid ∧
      ∃ out : FinalizeOutput, Identifies res.txid out.txid := by
  have hok : (Napi.finalizeTransaction recording recordView bytesFinalizer
      sampleDeviceSignatures).isOk = true := by decide +kernel
  obtain ⟨res, hres⟩ := exists_ok_of_isOk hok
  obtain ⟨inputs, out, -, -, -, hid, hbroadcast⟩ :=
    (txid_reconciles bytesReader_readsBack sampleDeviceSignatures res).mp hres
  exact ⟨res, hres, hbroadcast acceptingNode, out, hid⟩

end Sample

end LedgerZcash
