import LedgerZcash.Crypto.Pczt
import LedgerZcash.Lib.Slots

/-!
# Finalizing a PCZT

`finalizeTransaction` puts the device's signatures into a PCZT and extracts the
transaction.  The signatures of a pool are for its unsigned actions, in order: the I/O
finalizer has signed the dummy actions when the PCZT was built.  There is one DER
signature for each transparent input.  The roles that do the work are upstream
(`FinalizeUpstream`); what the code decides is which signature goes where, and when it
refuses.
-/

namespace LedgerZcash

open Hex Slots

section Types

variable {Path : Type} (T : CraftTypes Path)

structure FinalizeInputs where
  pcztBytes : List UInt8
  /-- One for each unsigned Orchard action, in order. -/
  orchardSignatures : List (Arr 64)
  /-- One for each unsigned Ironwood action, in order. -/
  ironwoodSignatures : List (Arr 64)
  /-- One DER signature for each transparent input, in order. -/
  transparentSignatures : List (List UInt8)

/-- The signatures of a pool. -/
def FinalizeInputs.signatures (inputs : FinalizeInputs) : Pool → List (Arr 64)
  | .orchard => inputs.orchardSignatures
  | .ironwood => inputs.ironwoodSignatures

structure FinalizeOutput where
  txBytes : List UInt8
  /-- Internal byte order. -/
  txid : Bytes32
deriving DecidableEq

/-- The PCZT roles that finalizing runs.  Errors are the texts the code prints. -/
structure FinalizeUpstream where
  /-- `pczt::roles::signer::Signer`. -/
  Signer : Type
  /-- `secp256k1::ecdsa::Signature`. -/
  EcdsaSignature : Type
  Transaction : Type
  /-- `BranchId::try_from`. -/
  branchOfId : Nat → Option (Option NetworkUpgrade)
  /-- `update_transparent_with` reads the transparent bundle. -/
  openTransparent : T.Pczt → Except String Unit
  /-- `update_input_with`, setting a hash160 preimage for each public key. -/
  setHash160Preimages : T.Pczt → Nat → List (Arr 33) → Except String T.Pczt
  newSigner : T.Pczt → Except String Signer
  /-- `apply_orchard_signature` and its sibling. -/
  applySignature : Pool → Signer → Nat → Arr 64 → Except String Signer
  /-- `Signature::from_der`. -/
  fromDer : List UInt8 → Except String EcdsaSignature
  appendTransparentSignature : Signer → Nat → EcdsaSignature → Except String Signer
  finish : Signer → T.Pczt
  /-- `SpendFinalizer::finalize_spends`. -/
  finalizeSpends : T.Pczt → Except String T.Pczt
  /-- `TransactionExtractor`, with the verifying key of a circuit version. -/
  extract : OrchardCircuitVersion → T.Pczt → Except String Transaction
  write : Transaction → Except String (List UInt8)
  txid : Transaction → Bytes32

end Types

variable {Path : Type} {T : CraftTypes Path} (P : CraftUpstream T) (V : PcztView T)
  (U : FinalizeUpstream T)

/-! ## Keys -/

/-- The verifying key of a branch; the keys are named by their circuit version. -/
def verifyingKeyFor (consensusBranchId : Nat) : OrchardCircuitVersion :=
  match (U.branchOfId consensusBranchId).map (orchardCircuitVersionFor P) with
  | some .postNu6_3 => .postNu6_3
  | _ => .fixedPostNu6_2

/-! ## Signatures of the device -/

/-- The device marks an odd `y` in the header byte. -/
def resetParityBit : List UInt8 → List UInt8
  | 0x31 :: rest => 0x30 :: rest
  | buf => buf

/-- The device appends the sighash type: one byte behind the length that DER declares. -/
def stripSighashType : List UInt8 → List UInt8
  | tag :: len :: content =>
      if len < 0x80 ∧ content.length = len.toNat + 1 then
        tag :: len :: content.take len.toNat
      else tag :: len :: content
  | buf => buf

def parseTransparentDer (bytes : List UInt8) : Except Error U.EcdsaSignature := do
  refuseIf (bytes.length < 2) (Error.finalize ("transparent DER signature too short: " ++
    bytes.length.repr ++ " bytes"))
  (U.fromDer (stripSighashType (resetParityBit bytes))).mapError fun e ↦
    Error.finalize ("transparent DER parse failed: " ++ e)

/-! ## The steps -/

def parsePczt (bytes : List UInt8) : Except Error T.Pczt :=
  (V.parse bytes).mapError fun e ↦ .finalize ("PCZT parse failed: " ++ e)

/-- The indices of a pool's unsigned actions, in order. -/
def unsignedActions (pool : Pool) (pczt : T.Pczt) : List Nat :=
  emptySlots (V.spendAuthSigs pool pczt)

/-- One signature for each unsigned action of a pool. -/
def checkSignatureCount (pool : Pool) (inputs : FinalizeInputs) (pczt : T.Pczt) :
    Except Error Unit :=
  refuseIf ((inputs.signatures pool).length ≠ (unsignedActions V pool pczt).length)
    (Error.finalize (pool.debug ++ " signature count " ++ (inputs.signatures pool).length.repr ++
      " != unsigned action count " ++ (unsignedActions V pool pczt).length.repr))

/-- One signature for each transparent input. -/
def checkTransparentCount (inputs : FinalizeInputs) (pczt : T.Pczt) : Except Error Unit :=
  refuseIf (inputs.transparentSignatures.length ≠ (V.inputs pczt).length)
    (Error.finalize ("transparent signature count " ++ inputs.transparentSignatures.length.repr ++
      " != transparent input count " ++ (V.inputs pczt).length.repr))

def checkCounts (inputs : FinalizeInputs) (pczt : T.Pczt) : Except Error Unit := do
  checkSignatureCount V .orchard inputs pczt
  checkSignatureCount V .ironwood inputs pczt
  checkTransparentCount V inputs pczt

/-- The public keys that may control each transparent input. -/
def inputPubkeys (pczt : T.Pczt) : List (List (Arr 33)) :=
  (V.inputs pczt).map fun input ↦ input.bip32Derivation.keys

/-- Every transparent input has a public key. -/
def checkInputPubkeys (pczt : T.Pczt) : Except Error Unit :=
  match (inputPubkeys V pczt).findIdx? List.isEmpty with
  | some index => .error (.finalize ("transparent input " ++ index.repr ++
      " has no bip32_derivation; cannot stamp hash160 preimage (the controlling pubkey is " ++
      "unknown)"))
  | none => .ok ()

/-- The preimages let the signer verify a signature and rebuild the input's script. -/
def stampTransparentHash160Preimages (pczt : T.Pczt) : Except Error T.Pczt := do
  let updaterError (e : String) : Error :=
    .finalize ("PCZT Updater (transparent hash160 preimage): " ++ e)
  (U.openTransparent pczt).mapError updaterError
  checkInputPubkeys V pczt
  ((inputPubkeys V pczt).zipIdx.foldlM (fun pczt (pubkeys, index) ↦
    U.setHash160Preimages pczt index pubkeys) pczt).mapError updaterError

/-- The signatures of a pool, each on its action. -/
def applySignatures (pool : Pool) (unsigned : List Nat) (signatures : List (Arr 64))
    (signer : U.Signer) : Except Error U.Signer :=
  (unsigned.zip signatures).foldlM (fun signer (action, sig) ↦
    (U.applySignature pool signer action sig).mapError fun e ↦
      Error.finalize ("apply_" ++ pool.name ++ "_signature(action " ++ action.repr ++ "): " ++ e))
    signer

def appendSignature (signer : U.Signer) (idx : Nat) (sig : U.EcdsaSignature) :
    Except Error U.Signer :=
  (U.appendTransparentSignature signer idx sig).mapError fun e ↦
    .finalize ("append_transparent_signature(" ++ idx.repr ++ "): " ++ e)

/-- The transparent signatures, each on its input. -/
def appendTransparentSignatures (signatures : List (List UInt8)) (signer : U.Signer) :
    Except Error U.Signer :=
  signatures.zipIdx.foldlM (fun signer (der, idx) ↦ do
    let sig ← parseTransparentDer U der
    appendSignature U signer idx sig) signer

/-- Step 2b: the preimages of the transparent inputs, if there are any. -/
def stampInputs (pczt : T.Pczt) : Except Error T.Pczt :=
  if 0 < (V.inputs pczt).length then stampTransparentHash160Preimages V U pczt else pure pczt

/-- Steps 2 to 5: the checked signatures go into the PCZT. -/
def signPczt (inputs : FinalizeInputs) (pczt : T.Pczt) : Except Error T.Pczt := do
  checkCounts V inputs pczt
  let stamped ← stampInputs V U pczt
  let signer ← (U.newSigner stamped).mapError fun e ↦ Error.finalize ("Signer::new: " ++ e)
  let signer ← applySignatures U .orchard (unsignedActions V .orchard pczt)
    inputs.orchardSignatures signer
  let signer ← applySignatures U .ironwood (unsignedActions V .ironwood pczt)
    inputs.ironwoodSignatures signer
  let signer ← appendTransparentSignatures U inputs.transparentSignatures signer
  pure (U.finish signer)

/-- Step 6: the scripts of the transparent inputs, if there are any. -/
def finalizeSpends (hasInputs : Bool) (signed : T.Pczt) : Except Error T.Pczt :=
  if hasInputs then (U.finalizeSpends signed).mapError fun e ↦ .finalize ("SpendFinalizer: " ++ e)
  else pure signed

/-- Steps 6 to 8: the transaction of a signed PCZT, which has a transparent input or not. -/
def extractTransaction (consensusBranchId : Nat) (hasInputs : Bool) (signed : T.Pczt) :
    Except Error FinalizeOutput := do
  let pczt ← finalizeSpends U hasInputs signed
  let tx ← (U.extract (verifyingKeyFor P U consensusBranchId) pczt).mapError fun e ↦
    Error.finalize ("TransactionExtractor: " ++ e)
  let txBytes ← (U.write tx).mapError fun e ↦ Error.finalize ("tx serialize: " ++ e)
  pure { txBytes, txid := U.txid tx }

/-- Put the device's signatures into a proven PCZT and extract the transaction. -/
def finalizeTransaction (inputs : FinalizeInputs) : Except Error FinalizeOutput := do
  let pczt ← parsePczt V inputs.pcztBytes
  let signed ← signPczt V U inputs pczt
  extractTransaction P U (V.consensusBranchId pczt) (0 < (V.inputs pczt).length) signed

end LedgerZcash
