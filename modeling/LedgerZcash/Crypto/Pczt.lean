import LedgerZcash.Crypto.Craft
import Mathlib.Data.List.AList

/-!
# Reading a PCZT

What the crate reads of a PCZT: its transparent inputs and outputs with their
`bip32_derivation` maps, and of each shielded action the signature and the derivation of
its spend.  `PcztView` holds the accessors, which are upstream.  Below it is the
transparent half of `parse_pczt`, which flattens these items for the device: a map of
derivations must have at most one entry, and exactly one on an input.
-/

namespace LedgerZcash

open Hex

/-! ## The view -/

/-- A `BTreeMap` of derivations by public key; the order of its entries is never read. -/
abbrev DerivationMap := AList fun _ : Arr 33 ↦ Derivation

instance : DecidableEq DerivationMap :=
  fun a b ↦ decidable_of_iff (a.entries = b.entries) AList.ext_iff.symm

/-- `zcash_transparent::pczt::Input`. -/
structure PcztInput where
  prevoutTxid : Bytes32
  prevoutIndex : Nat
  sequence : Option Nat
  value : Nat
  scriptPubkey : List UInt8
  sighashType : UInt8
  bip32Derivation : DerivationMap
deriving DecidableEq

/-- `zcash_transparent::pczt::Output`. -/
structure PcztOutput where
  value : Nat
  scriptPubkey : List UInt8
  bip32Derivation : DerivationMap
deriving DecidableEq

/-- The spend of an `orchard::pczt::Action`. -/
structure PcztAction where
  spendAuthSig : Option (Arr 64)
  zip32Derivation : Option Derivation
deriving DecidableEq

/-- The accessors of a PCZT. -/
structure PcztView {Path : Type} (T : CraftTypes Path) where
  /-- `Pczt::parse`. -/
  parse : List UInt8 → Except String T.Pczt
  /-- `global().consensus_branch_id()`. -/
  consensusBranchId : T.Pczt → Nat
  inputs : T.Pczt → List PcztInput
  outputs : T.Pczt → List PcztOutput
  actions : Pool → T.Pczt → List PcztAction
  /-- `TransparentAddress::script`, serialized. -/
  script : T.TransparentAddress → List UInt8

namespace PcztView

variable {Path : Type} {T : CraftTypes Path} (V : PcztView T)

/-- The spend-authorization signatures of a pool's actions. -/
def spendAuthSigs (pool : Pool) (pczt : T.Pczt) : List (Option (Arr 64)) :=
  (V.actions pool pczt).map PcztAction.spendAuthSig

/-- The spend derivations of a pool's actions. -/
def zip32Derivations (pool : Pool) (pczt : T.Pczt) : List (Option Derivation) :=
  (V.actions pool pczt).map PcztAction.zip32Derivation

end PcztView

/-! ## For the device -/

/-- One index of a path: a hardened one is marked behind its number. -/
def formatChildIndex (i : Nat) : String :=
  if i.testBit 31 then (i % hardenedOffset).repr ++ "'" else i.repr

def formatDerivationPath (indices : List Nat) : String :=
  "/".intercalate (indices.map formatChildIndex)

structure ParsedBip32Derivation where
  signingPath : String
  pubkey : Arr 33
  seedFingerprint : Bytes32
deriving DecidableEq

structure ParsedTransparentInput where
  prevoutTxid : Bytes32
  prevoutIndex : Nat
  sequence : Option Nat
  value : Nat
  scriptPubkey : List UInt8
  sighashType : UInt8
  derivation : ParsedBip32Derivation
deriving DecidableEq

structure ParsedTransparentOutput where
  value : Nat
  scriptPubkey : List UInt8
  /-- Only on the change outputs of the wallet. -/
  derivation : Option ParsedBip32Derivation
deriving DecidableEq

/-- The only entry of a map, none of an empty one. -/
def singleDerivation (map : DerivationMap) : Except String (Option ParsedBip32Derivation) :=
  match map.entries with
  | [] => .ok none
  | [⟨pubkey, deriv⟩] => .ok (some
      { signingPath := formatDerivationPath deriv.path, pubkey
        seedFingerprint := deriv.seedFingerprint })
  | entries => .error ("expected 0 or 1 bip32_derivation entries, found " ++ entries.length.repr)

def convertTransparentInput (input : PcztInput) : Except String ParsedTransparentInput := do
  let derivation ← match ← singleDerivation input.bip32Derivation with
    | some derivation => pure derivation
    | none => throw "transparent input requires exactly one bip32_derivation"
  pure
    { prevoutTxid := input.prevoutTxid, prevoutIndex := input.prevoutIndex
      sequence := input.sequence, value := input.value, scriptPubkey := input.scriptPubkey
      sighashType := input.sighashType, derivation }

def convertTransparentOutput (output : PcztOutput) : Except String ParsedTransparentOutput := do
  let derivation ← singleDerivation output.bip32Derivation
  pure { value := output.value, scriptPubkey := output.scriptPubkey, derivation }

/-- The transparent items of `parse_pczt`, inputs first. -/
def convertTransparent {Path : Type} {T : CraftTypes Path} (V : PcztView T) (pczt : T.Pczt) :
    Except Error (List ParsedTransparentInput × List ParsedTransparentOutput) := do
  let inputs ← ((V.inputs pczt).mapM convertTransparentInput).mapError Error.parse
  let outputs ← ((V.outputs pczt).mapM convertTransparentOutput).mapError Error.parse
  pure (inputs, outputs)

/-! ## Maps with one entry -/

@[simp] theorem singleDerivation_empty : singleDerivation ∅ = .ok none := rfl

@[simp] theorem singleDerivation_singleton (pubkey : Arr 33) (derivation : Derivation) :
    singleDerivation (AList.singleton pubkey derivation) = .ok (some
      { signingPath := formatDerivationPath derivation.path, pubkey
        seedFingerprint := derivation.seedFingerprint }) := rfl

/-- A map is accepted when it has at most one entry. -/
theorem singleDerivation_eq_ok {map : DerivationMap} :
    (∃ d, singleDerivation map = .ok d) ↔ map.entries.length ≤ 1 := by
  unfold singleDerivation
  rcases map.entries with _ | ⟨_, _ | ⟨_, _⟩⟩ <;> simp

end LedgerZcash
