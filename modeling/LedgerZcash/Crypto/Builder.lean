import LedgerZcash.Crypto.Fee

/-!
# The upstream transaction builder

What the crafting code hands to the upstream builder, and the upstream operations it
calls.  A `Builder` is the record of the calls made on it, in order; whether the builder
takes a further item, what it makes of its items and what the PCZT roles do are upstream
(`CraftUpstream`), with no assumption on their answers.  The four `add…` functions of
the source are `addSpend`, `addTransparentInput`, `addOutput` and `addOrchardChange`,
with the Ironwood siblings of the first and the third.
-/

namespace LedgerZcash

open Hex

/-- The upstream types that pass through the builders unread, over the type of Merkle
paths. -/
structure CraftTypes (Path : Type) where
  /-- `orchard::keys::FullViewingKey`. -/
  Fvk : Type
  /-- `OutgoingViewingKey`. -/
  Ovk : Type
  OrchardAddress : Type
  TransparentAddress : Type
  /-- `secp256k1::PublicKey`. -/
  PublicKey : Type
  Script : Type
  /-- `orchard::Anchor`. -/
  Anchor : Type
  PcztParts : Type
  Pczt : Type

/-- `orchard::note::NoteVersion`. -/
inductive NoteVersion where
  | v2
  | v3
deriving DecidableEq, Repr

/-- `OrchardCircuitVersion`, which also names the proving key built for it. -/
inductive OrchardCircuitVersion where
  | insecurePreNu6_2
  | fixedPostNu6_2
  | postNu6_3
deriving DecidableEq, Repr

/-- `MemoBytes`. -/
abbrev MemoBytes := Arr 512

variable {Path : Type} (T : CraftTypes Path)

/-- The parts of an `orchard::Note`. -/
structure NoteParts where
  recipient : T.OrchardAddress
  value : Nat
  rho : Bytes32
  rseed : Bytes32
  version : NoteVersion

/-- An input handed to the builder. -/
inductive BuilderInput where
  | shielded (pool : Pool) (fvk : T.Fvk) (note : NoteParts T) (path : Path)
  | transparent (pubkey : T.PublicKey) (txid : Bytes32) (vout value : Nat) (script : T.Script)

/-- An output handed to the builder. -/
inductive BuilderOutput where
  | shielded (pool : Pool) (ovk : Option T.Ovk) (recipient : T.OrchardAddress) (value : Nat)
      (memo : MemoBytes)
  | orchardChange (fvk : T.Fvk) (ovk : Option T.Ovk) (recipient : T.OrchardAddress) (value : Nat)
      (memo : MemoBytes)
  | transparent (recipient : T.TransparentAddress) (value : Nat)

/-- A builder is what it has been given. -/
structure Builder where
  network : AnyZcashNetwork
  targetHeight : Nat
  orchardAnchor : Option T.Anchor
  ironwoodAnchor : Option T.Anchor
  /-- The transaction version is pinned to V5, not the default of the branch. -/
  proposedV5 : Bool
  inputs : List (BuilderInput T)
  outputs : List (BuilderOutput T)

/-- A ZIP-317 rule whose other parameters are standard. -/
structure FeeRule where
  marginalFee : Nat
deriving DecidableEq, Repr

/-- A derivation path under a seed: ZIP-32 or BIP-32. -/
structure Derivation where
  seedFingerprint : Bytes32
  path : List Nat
deriving DecidableEq

/-- A field that redaction removes from an action; the last one resolves a ciphertext to
its memo. -/
inductive Redaction where
  | cvNet
  | cmx
  | spendFvk
  | encCiphertext (version : NoteVersion)
deriving DecidableEq, Repr

/-- What the crafting code calls upstream.  Errors are the texts the code prints. -/
structure CraftUpstream where
  /-- The activation heights of the named networks. -/
  named : Network → Schedule
  /-- `BranchId::for_height`; `none` before the first upgrade. -/
  branchForHeight : AnyZcashNetwork → Nat → Option NetworkUpgrade
  /-- The circuit version of the branch's Orchard bundle. -/
  bundleCircuit : Option NetworkUpgrade → Option OrchardCircuitVersion
  /-- The text of `BalanceError::Overflow`. -/
  zatoshisOverflow : String
  /-- `MemoBytes::from_bytes` of too many bytes. -/
  memoTooLong : Nat → String
  /-- `FeeRule::non_standard` accepts the marginal fee. -/
  validMarginalFee : Nat → Bool
  /-- `Address::from_raw_address_bytes`. -/
  orchardAddress : Arr 43 → Option T.OrchardAddress
  /-- `Rho::from_bytes` accepts the bytes. -/
  validRho : Bytes32 → Bool
  /-- `RandomSeed::from_bytes` accepts the bytes for a rho. -/
  validRseed : Bytes32 → Bytes32 → Bool
  /-- `Note::from_parts` accepts the parts. -/
  validNote : NoteParts T → Bool
  /-- `PublicKey::from_slice`. -/
  publicKey : Arr 33 → Except String T.PublicKey
  /-- `Script::read` of a length-prefixed script. -/
  readScript : List UInt8 → Except String T.Script
  /-- `Anchor::from_bytes`. -/
  anchorFromBytes : Bytes32 → Option T.Anchor
  emptyTreeAnchor : T.Anchor
  /-- `propose_version(V5)`. -/
  proposeV5 : Builder T → Except String Unit
  /-- The builder takes a further input. -/
  takesInput : Builder T → BuilderInput T → Except String Unit
  /-- The builder takes a further output. -/
  takesOutput : Builder T → BuilderOutput T → Except String Unit
  getFee : Builder T → FeeRule → Except String Nat
  buildForPczt : Builder T → FeeRule → Except String T.PcztParts
  /-- The number of actions of a bundle, if the parts have it. -/
  partsActions : Pool → T.PcztParts → Option Nat
  expiryHeight : T.PcztParts → Nat
  setExpiryHeight : T.PcztParts → Nat → T.PcztParts
  /-- `Creator::build_from_parts`. -/
  createPczt : T.PcztParts → Option T.Pczt
  /-- `update_orchard_with` and its sibling find a bundle to update. -/
  openBundle : Pool → T.Pczt → Except String Unit
  /-- The number of actions of that bundle. -/
  bundleActions : Pool → T.Pczt → Nat
  /-- `Zip32Derivation::parse` accepts the path. -/
  validZip32 : Derivation → Bool
  /-- `update_action_with`, setting the spend's derivation. -/
  setSpendDerivation : Pool → T.Pczt → Nat → Derivation → Except String T.Pczt
  /-- `TransparentBip32Derivation::parse` accepts the path. -/
  parseBip32 : Derivation → Except String Unit
  /-- `update_input_with`, adding a derivation under a public key. -/
  setInputDerivation : T.Pczt → Nat → Arr 33 → Derivation → Except String T.Pczt
  /-- `update_output_with`, adding a derivation under a public key. -/
  setOutputDerivation : T.Pczt → Nat → Arr 33 → Derivation → Except String T.Pczt
  finalizeIo : T.Pczt → Except String T.Pczt
  requiresProof : Pool → T.Pczt → Bool
  createProof : Pool → OrchardCircuitVersion → T.Pczt → Except String T.Pczt
  /-- `redact_orchard_with` and its sibling, on every action. -/
  redactActions : Pool → List Redaction → T.Pczt → T.Pczt
  /-- `pczt::v1` encoding, serialized. -/
  serializeV1 : T.Pczt → Except String (List UInt8)
  /-- `pczt::v2` encoding, serialized. -/
  serializeV2 : T.Pczt → Except String (List UInt8)

variable {T} (P : CraftUpstream T)

/-- `Parameters::is_nu_active` of the builder's network. -/
def CraftUpstream.isNuActive (network : AnyZcashNetwork) (nu : NetworkUpgrade) (height : Nat) :
    Bool :=
  network.isNuActive P.named nu height

/-! ## Amounts and memos -/

/-- `MAX_MONEY`, in zatoshis. -/
def maxMoney : Nat := 21000000 * 100000000

/-- `Zatoshis::from_u64`, with the code's error text around the upstream one. -/
def zatoshis (what : String) (value : Nat) : Except Error Nat :=
  if value ≤ maxMoney then .ok value
  else .error (.craft (what ++ " out of range: " ++ P.zatoshisOverflow))

/-- The bytes of a memo, padded with zeros; no memo is `0xF6` and zeros. -/
def memoBytes : Option (List UInt8) → List UInt8
  | none => 0xF6 :: List.replicate 511 0
  | some bytes => bytes ++ List.replicate (512 - bytes.length) 0

theorem length_memoBytes {memo : Option (List UInt8)} (h : ∀ bytes ∈ memo, bytes.length ≤ 512) :
    (memoBytes memo).length = 512 := by
  cases memo with
  | none => rw [memoBytes, List.length_cons, List.length_replicate]
  | some bytes =>
      rw [memoBytes, List.length_append, List.length_replicate]
      exact Nat.add_sub_cancel' (h bytes rfl)

/-- `MemoBytes::empty`. -/
def emptyMemo : MemoBytes := ⟨memoBytes none, length_memoBytes (by simp)⟩

def encodeMemo (memo : Option (List UInt8)) : Except Error MemoBytes :=
  match memo with
  | none => .ok emptyMemo
  | some bytes =>
      if h : bytes.length ≤ 512 then
        .ok ⟨memoBytes (some bytes), length_memoBytes (by rintro _ ⟨⟩; exact h)⟩
      else .error (.craft ("invalid memo bytes: " ++ P.memoTooLong bytes.length))

/-! ## Requests -/

/-- A shielded note to spend: `OrchardSpendInput` and `IronwoodSpendInput` have the same
fields. -/
structure SpendInput (Path : Type) where
  recipient : Arr 43
  value : Nat
  rho : Bytes32
  rseed : Bytes32
  merklePath : Path

/-- A transparent output to spend. -/
structure TransparentInput where
  pubkey : Arr 33
  /-- Internal byte order. -/
  txid : Bytes32
  vout : Nat
  /-- Raw script bytes, with no length prefix. -/
  scriptPubkey : List UInt8
  value : Nat
  derivationScope : Nat
  derivationAddressIndex : Nat
deriving DecidableEq

variable (T) in
/-- Where an output goes; the shielded pool is that of the builder it is handed to. -/
inductive Destination where
  | shielded (address : T.OrchardAddress)
  | transparent (address : T.TransparentAddress)

/-- `matches!(destination, Orchard(_))`. -/
def Destination.isShielded : Destination T → Bool
  | .shielded _ => true
  | .transparent _ => false

variable (T) in
/-- `OutputRequest` and `IronwoodOutputRequest`. -/
structure OutputRequest where
  destination : Destination T
  value : Nat
  /-- Ignored for transparent outputs. -/
  memo : Option (List UInt8)

/-! ## Adding to the builder -/

namespace Pool

/-- The pool in the name of an upstream method. -/
def name : Pool → String
  | .orchard => "orchard"
  | .ironwood => "ironwood"

/-- The plaintext version of the pool's notes. -/
def noteVersion : Pool → NoteVersion
  | .orchard => .v2
  | .ironwood => .v3

/-- The pool in the error of a non-canonical note. -/
def noteText : Pool → String
  | .orchard => "note"
  | .ironwood => "Ironwood note"

end Pool

/-- A successful `add_…` call. -/
def pushInput (b : Builder T) (input : BuilderInput T) (method : String) :
    Except Error (Builder T) := do
  (P.takesInput b input).mapError fun e ↦ Error.craft (method ++ ": " ++ e)
  pure { b with inputs := b.inputs ++ [input] }

def pushOutput (b : Builder T) (output : BuilderOutput T) (method : String) :
    Except Error (Builder T) := do
  (P.takesOutput b output).mapError fun e ↦ Error.craft (method ++ ": " ++ e)
  pure { b with outputs := b.outputs ++ [output] }

/-- `Note::from_parts` on the decoded fields of a spend. -/
def noteOfSpend (pool : Pool) (spend : SpendInput Path) : Except Error (NoteParts T) := do
  let recipient ← okOr (P.orchardAddress spend.recipient)
    (.craft ("invalid " ++ pool.debug ++ " recipient bytes in spend"))
  refuseIf (!P.validRho spend.rho) (Error.craft ("invalid " ++ pool.debug ++ " rho bytes"))
  refuseIf (!P.validRseed spend.rseed spend.rho)
    (Error.craft ("invalid " ++ pool.debug ++ " rseed for the given rho"))
  let note : NoteParts T :=
    { recipient, value := spend.value, rho := spend.rho, rseed := spend.rseed
      version := pool.noteVersion }
  refuseIf (!P.validNote note)
    (Error.craft ("Note::from_parts produced a non-canonical " ++ pool.noteText))
  pure note

/-- Add a note of the pool, with its path. -/
def addShieldedSpend (pool : Pool) (b : Builder T) (fvk : T.Fvk) (spend : SpendInput Path) :
    Except Error (Builder T) := do
  let note ← noteOfSpend P pool spend
  pushInput P b (.shielded pool fvk note spend.merklePath) ("add_" ++ pool.name ++ "_spend")

def addSpend (b : Builder T) (fvk : T.Fvk) (spend : SpendInput Path) : Except Error (Builder T) :=
  addShieldedSpend P .orchard b fvk spend

def addIronwoodSpend (b : Builder T) (fvk : T.Fvk) (spend : SpendInput Path) :
    Except Error (Builder T) :=
  addShieldedSpend P .ironwood b fvk spend

/-- The longest script whose length is a one-byte CompactSize. -/
def maxScriptLen : Nat := 252

/-- Add one transparent P2PKH output to spend. -/
def addTransparentInput (b : Builder T) (tin : TransparentInput) : Except Error (Builder T) := do
  let pubkey ← (P.publicKey tin.pubkey).mapError fun e ↦
    Error.craft ("invalid transparent pubkey: " ++ e)
  let value ← zatoshis P "transparent input value" tin.value
  refuseIf (maxScriptLen < tin.scriptPubkey.length)
    (Error.craft ("scriptPubKey length (" ++ tin.scriptPubkey.length.repr ++
      " bytes) exceeds the single-byte CompactSize limit (252 bytes); larger scripts would " ++
      "need a multi-byte length prefix"))
  let script ← (P.readScript (UInt8.ofNat tin.scriptPubkey.length :: tin.scriptPubkey)).mapError
    fun e ↦ Error.craft ("invalid scriptPubKey: " ++ e)
  pushInput P b (.transparent pubkey tin.txid tin.vout value script) "add_transparent_p2pkh_input"

/-- Add an output, shielded in the given pool or transparent. -/
def addPoolOutput (pool : Pool) (b : Builder T) (ovk : Option T.Ovk) (out : OutputRequest T) :
    Except Error (Builder T) := do
  let value ← zatoshis P "output value" out.value
  match out.destination with
  | .shielded addr =>
      let memo ← encodeMemo P out.memo
      pushOutput P b (.shielded pool ovk addr value memo) ("add_" ++ pool.name ++ "_output")
  | .transparent addr => pushOutput P b (.transparent addr value) "add_transparent_output"

def addOutput (b : Builder T) (ovk : Option T.Ovk) (out : OutputRequest T) :
    Except Error (Builder T) :=
  addPoolOutput P .orchard b ovk out

def addIronwoodOutput (b : Builder T) (ovk : Option T.Ovk) (out : OutputRequest T) :
    Except Error (Builder T) :=
  addPoolOutput P .ironwood b ovk out

/-- Orchard change goes through the builder's change call, with no memo. -/
def addOrchardChange (b : Builder T) (fvk : T.Fvk) (ovk : Option T.Ovk)
    (recipient : T.OrchardAddress) (valueZat : Nat) : Except Error (Builder T) := do
  let value ← zatoshis P "change value" valueZat
  pushOutput P b (.orchardChange fvk ovk recipient value emptyMemo) "add_orchard_change_output"

end LedgerZcash
