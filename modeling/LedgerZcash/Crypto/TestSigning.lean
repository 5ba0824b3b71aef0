import LedgerZcash.Crypto.Finalize

/-!
# The test signer

The functions by which a test stands in for the device: they sign a PCZT's unsigned
actions and its transparent inputs with keys derived from a seed, and return the
signatures in the order in which `finalizeTransaction` takes them.  The signatures of
actions are read back from the PCZT that the signer finishes with.
-/

namespace LedgerZcash

open Hex Slots

/-- What the test signer calls beyond the roles of the finalizer. -/
structure TestSigner {Path : Type} {T : CraftTypes Path} (U : FinalizeUpstream T) where
  /-- `SpendAuthorizingKey`. -/
  Ask : Type
  /-- What the system's generator returns. -/
  Entropy : Type
  /-- `Xpriv`. -/
  Xpriv : Type
  SecretKey : Type
  /-- `sign_orchard` and its sibling. -/
  signAction : Pool → Entropy → U.Signer → Nat → Ask → Except String U.Signer
  newMaster : Network → List UInt8 → Except String Xpriv
  /-- `derive_priv`, as the key that the signer takes. -/
  derivePriv : Xpriv → List Nat → Except String SecretKey
  transparentSighash : U.Signer → Nat → Except String Bytes32
  /-- `ecdsa::sign`. -/
  signEcdsa : Bytes32 → SecretKey → U.EcdsaSignature
  serializeDer : U.EcdsaSignature → List UInt8

variable {Path : Type} {T : CraftTypes Path} (V : PcztView T) (U : FinalizeUpstream T)
  (W : TestSigner U)

/-! ## Actions -/

/-- The PCZT with the unsigned actions of a pool signed, in order. -/
def signActions (pool : Pool) (entropy : Nat → W.Entropy) (ask : W.Ask) (pczt : T.Pczt) :
    Except Error T.Pczt := do
  let signer ← (U.newSigner pczt).mapError fun e ↦ Error.finalize ("Signer::new: " ++ e)
  let signer ← (unsignedActions V pool pczt).foldlM (fun signer idx ↦
    (W.signAction pool (entropy idx) signer idx ask).mapError fun e ↦
      Error.finalize ("sign_" ++ pool.name ++ "(action " ++ idx.repr ++ "): " ++ e)) signer
  pure (U.finish signer)

/-- The signatures of the unsigned actions of a pool, in order.  Signing keeps the actions,
so no index is out of range. -/
def signPcztActions (pool : Pool) (entropy : Nat → W.Entropy) (pcztBytes : List UInt8)
    (ask : W.Ask) : Except Error (List (Arr 64)) := do
  let pczt ← parsePczt V pcztBytes
  let signed ← signActions V U W pool entropy ask pczt
  (unsignedActions V pool pczt).mapM fun idx ↦
    okOr (V.spendAuthSigs pool signed)[idx]?.join
      (.finalize ("action " ++ idx.repr ++ ": spend_auth_sig missing after signing"))

def signPcztOrchardActions (entropy : Nat → W.Entropy) (pcztBytes : List UInt8) (ask : W.Ask) :
    Except Error (List (Arr 64)) :=
  signPcztActions V U W .orchard entropy pcztBytes ask

def signPcztIronwoodActions (entropy : Nat → W.Entropy) (pcztBytes : List UInt8) (ask : W.Ask) :
    Except Error (List (Arr 64)) :=
  signPcztActions V U W .ironwood entropy pcztBytes ask

/-! ## Transparent inputs -/

/-- The path of the only derivation of an input. -/
def transparentInputBip32Path (input : PcztInput) : Except Error (List Nat) :=
  match input.bip32Derivation.entries with
  | [⟨_, deriv⟩] => .ok deriv.path
  | entries => .error (.finalize ("transparent input expected exactly 1 bip32_derivation " ++
      "entry, found " ++ entries.length.repr))

/-- The secret keys of the transparent inputs, from their own paths. -/
def inputSecretKeys (root : W.Xpriv) (pczt : T.Pczt) : Except Error (List W.SecretKey) := do
  (U.openTransparent pczt).mapError fun e ↦
    Error.finalize ("PCZT Updater (read bip32 derivation): " ++ e)
  let paths ← (V.inputs pczt).mapM transparentInputBip32Path
  paths.mapM fun path ↦ (W.derivePriv root path).mapError Error.bip32

/-- The signature of one input, by its key. -/
def signTransparentInput (signer : U.Signer) (sk : W.SecretKey) (index : Nat) :
    Except Error (List UInt8) := do
  let sighash ← (W.transparentSighash signer index).mapError fun e ↦
    Error.finalize ("transparent_sighash(" ++ index.repr ++ "): " ++ e)
  pure (W.serializeDer (W.signEcdsa sighash sk))

/-- The DER signatures of the transparent inputs, in order. -/
def signPcztTransparentInputs (pcztBytes seed : List UInt8) (network : Network) :
    Except Error (List (List UInt8)) := do
  let pczt ← parsePczt V pcztBytes
  if (V.inputs pczt).length = 0 then pure []
  else
    let root ← (W.newMaster network seed).mapError Error.bip32
    let secretKeys ← inputSecretKeys V U W root pczt
    let signer ← (U.newSigner pczt).mapError fun e ↦ Error.finalize ("Signer::new: " ++ e)
    secretKeys.zipIdx.mapM fun (sk, index) ↦ signTransparentInput U W signer sk index

end LedgerZcash
