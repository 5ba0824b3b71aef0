import LedgerZcash.Crypto.ParsePczt

/-!
# A PCZT as JavaScript sees it

`parsePczt` hands the parsed PCZT to JavaScript: arrays become byte arrays of no fixed length,
amounts and the value balance decimal texts, small numbers numbers.  An object that it returns
can be read back, down to what the PCZT holds (`parsePczt_lossless`).
-/

namespace LedgerZcash

open Hex Collect Decimal

namespace Napi

structure PcztGlobal where
  txVersion : Nat
  versionGroupId : Nat
  consensusBranchId : Nat
  fallbackLockTime : Option Nat
  expiryHeight : Nat
  coinType : Nat
  txModifiable : Nat
deriving DecidableEq

structure PcztBip32Derivation where
  signingPath : String
  pubkey : List UInt8
  seedFingerprint : List UInt8
deriving DecidableEq

structure PcztTransparentInput where
  prevoutTxid : List UInt8
  prevoutIndex : Nat
  sequence : Option Nat
  value : String
  scriptPubKey : List UInt8
  sighashType : Nat
  derivation : PcztBip32Derivation
deriving DecidableEq

structure PcztTransparentOutput where
  value : String
  scriptPubKey : List UInt8
  derivation : Option PcztBip32Derivation
deriving DecidableEq

structure PcztOrchardAction where
  cvNet : List UInt8
  nullifier : List UInt8
  rk : List UInt8
  spendRecipient : List UInt8
  spendValue : String
  spendRho : List UInt8
  spendRseed : List UInt8
  alpha : List UInt8
  signingPath : String
  seedFingerprint : List UInt8
  cmx : List UInt8
  ephemeralKey : List UInt8
  encCiphertext : List UInt8
  outCiphertext : List UInt8
  recipient : List UInt8
  value : String
  rseed : List UInt8
  rcv : List UInt8
deriving DecidableEq

structure PcztOrchardBundle where
  actions : List PcztOrchardAction
  flags : Nat
  valueBalance : String
  anchor : List UInt8
deriving DecidableEq

/-- The fields of an Orchard action, and one more. -/
structure PcztIronwoodAction extends PcztOrchardAction where
  notePlaintextVersion : Nat
deriving DecidableEq

structure PcztIronwoodBundle where
  actions : List PcztIronwoodAction
  flags : Nat
  valueBalance : String
  anchor : List UInt8
deriving DecidableEq

structure PcztTransaction where
  global : PcztGlobal
  transparentInputs : List PcztTransparentInput
  transparentOutputs : List PcztTransparentOutput
  orchardBundle : Option PcztOrchardBundle
  ironwoodBundle : Option PcztIronwoodBundle
deriving DecidableEq

end Napi

open Parse

/-! ## Handing over -/

def derivationToNapi (d : ParsedBip32Derivation) : Napi.PcztBip32Derivation where
  signingPath := d.signingPath
  pubkey := d.pubkey.1
  seedFingerprint := d.seedFingerprint.1

def orchardActionToNapi (a : ParsedOrchardAction) : Napi.PcztOrchardAction where
  cvNet := a.cvNet.1
  nullifier := a.nullifier.1
  rk := a.rk.1
  spendRecipient := a.spendRecipient.1
  spendValue := a.spendValue.repr
  spendRho := a.spendRho.1
  spendRseed := a.spendRseed.1
  alpha := a.alpha.1
  signingPath := a.signingPath
  seedFingerprint := a.seedFingerprint.1
  cmx := a.cmx.1
  ephemeralKey := a.ephemeralKey.1
  encCiphertext := a.encCiphertext
  outCiphertext := a.outCiphertext
  recipient := a.recipient.1
  value := a.value.repr
  rseed := a.rseed.1
  rcv := a.rcv.1

def ironwoodActionToNapi (a : ParsedIronwoodAction) : Napi.PcztIronwoodAction where
  toPcztOrchardAction := orchardActionToNapi a.action
  notePlaintextVersion := a.notePlaintextVersion.toNat

def globalToNapi (g : ParsedGlobal) : Napi.PcztGlobal where
  txVersion := g.txVersion
  versionGroupId := g.versionGroupId
  consensusBranchId := g.consensusBranchId
  fallbackLockTime := g.fallbackLockTime
  expiryHeight := g.expiryHeight
  coinType := g.coinType
  txModifiable := g.txModifiable.toNat

def transparentInputToNapi (input : ParsedTransparentInput) : Napi.PcztTransparentInput where
  prevoutTxid := input.prevoutTxid.1
  prevoutIndex := input.prevoutIndex
  sequence := input.sequence
  value := input.value.repr
  scriptPubKey := input.scriptPubkey
  sighashType := input.sighashType.toNat
  derivation := derivationToNapi input.derivation

def transparentOutputToNapi (output : ParsedTransparentOutput) : Napi.PcztTransparentOutput where
  value := output.value.repr
  scriptPubKey := output.scriptPubkey
  derivation := output.derivation.map derivationToNapi

def orchardBundleToNapi (b : ParsedOrchardBundle) : Napi.PcztOrchardBundle where
  actions := b.actions.map orchardActionToNapi
  flags := b.flags.toNat
  valueBalance := b.valueBalance.repr
  anchor := b.anchor.1

def ironwoodBundleToNapi (b : ParsedIronwoodBundle) : Napi.PcztIronwoodBundle where
  actions := b.actions.map ironwoodActionToNapi
  flags := b.flags.toNat
  valueBalance := b.valueBalance.repr
  anchor := b.anchor.1

def parsedPcztToNapi (parsed : ParsedPczt) : Napi.PcztTransaction where
  global := globalToNapi parsed.global
  transparentInputs := parsed.transparentInputs.map transparentInputToNapi
  transparentOutputs := parsed.transparentOutputs.map transparentOutputToNapi
  orchardBundle := parsed.orchardBundle.map orchardBundleToNapi
  ironwoodBundle := parsed.ironwoodBundle.map ironwoodBundleToNapi

namespace Napi

variable {Path : Type} {T : CraftTypes Path} (V : PcztView T) (U : ParseUpstream T)

/-- Parse canonical PCZT bytes, as hex, for the device. -/
def parsePczt (pcztHex : String) : Except String PcztTransaction := do
  let bytes ← (Hex.decode pcztHex).mapError fun e ↦ "pczt hex decode: " ++ e.toString
  let parsed ← (Parse.parsePczt V U bytes).mapError Error.toString
  pure (parsedPcztToNapi parsed)

end Napi

/-! ## Reading back -/

/-- A byte that crossed as a number. -/
def readByte (n : Nat) : Option UInt8 := if n < 256 then some (UInt8.ofNat n) else none

/-- `BigInt(text)` of an amount. -/
def readAmount (s : String) : Option Nat := readDigits s.toList

/-- `BigInt(text)` of a balance. -/
def readBigInt (s : String) : Option Int :=
  match s.toList with
  | '-' :: cs => (readDigits cs).map fun n : Nat ↦ -(n : Int)
  | cs => (readDigits cs).map Int.ofNat

@[simp] theorem readByte_toNat (b : UInt8) : readByte b.toNat = some b := by
  rw [readByte, if_pos b.toNat_lt, UInt8.ofNat_toNat]

@[simp] theorem readAmount_repr (n : Nat) : readAmount n.repr = some n := by
  rw [readAmount, ← padded_zero, readDigits_padded]

@[simp] theorem readBigInt_repr (n : Int) : readBigInt n.repr = some n := by
  cases n with
  | ofNat n =>
      show readBigInt n.repr = _
      rw [readBigInt, ← padded_zero]
      split
      · rename_i cs heq
        exact absurd (heq ▸ List.mem_cons_self) (notMem_padded (by decide))
      · rw [readDigits_padded]
        rfl
  | negSucc n =>
      show readBigInt ("-" ++ (n + 1).repr) = _
      rw [readBigInt, String.toList_append, ← padded_zero]
      show (readDigits (padded 0 (n + 1))).map _ = _
      rw [readDigits_padded]
      rfl

namespace Napi

def PcztGlobal.read (g : PcztGlobal) : Option ParsedGlobal := do
  let txModifiable ← readByte g.txModifiable
  pure
    { txVersion := g.txVersion, versionGroupId := g.versionGroupId
      consensusBranchId := g.consensusBranchId, fallbackLockTime := g.fallbackLockTime
      expiryHeight := g.expiryHeight, coinType := g.coinType, txModifiable }

def PcztBip32Derivation.read (d : PcztBip32Derivation) : Option ParsedBip32Derivation := do
  let pubkey ← Arr.tryFrom 33 d.pubkey
  let seedFingerprint ← Arr.tryFrom 32 d.seedFingerprint
  pure { signingPath := d.signingPath, pubkey, seedFingerprint }

def PcztTransparentInput.read (input : PcztTransparentInput) : Option ParsedTransparentInput := do
  let prevoutTxid ← Arr.tryFrom 32 input.prevoutTxid
  let value ← readAmount input.value
  let sighashType ← readByte input.sighashType
  let derivation ← input.derivation.read
  pure
    { prevoutTxid, prevoutIndex := input.prevoutIndex, sequence := input.sequence, value
      scriptPubkey := input.scriptPubKey, sighashType, derivation }

def PcztTransparentOutput.read (output : PcztTransparentOutput) :
    Option ParsedTransparentOutput := do
  let value ← readAmount output.value
  let derivation ← output.derivation.mapM PcztBip32Derivation.read
  pure { value, scriptPubkey := output.scriptPubKey, derivation }

def PcztOrchardAction.read (a : PcztOrchardAction) : Option ParsedOrchardAction := do
  let cvNet ← Arr.tryFrom 32 a.cvNet
  let nullifier ← Arr.tryFrom 32 a.nullifier
  let rk ← Arr.tryFrom 32 a.rk
  let spendRecipient ← Arr.tryFrom 43 a.spendRecipient
  let spendValue ← readAmount a.spendValue
  let spendRho ← Arr.tryFrom 32 a.spendRho
  let spendRseed ← Arr.tryFrom 32 a.spendRseed
  let alpha ← Arr.tryFrom 32 a.alpha
  let seedFingerprint ← Arr.tryFrom 32 a.seedFingerprint
  let cmx ← Arr.tryFrom 32 a.cmx
  let ephemeralKey ← Arr.tryFrom 32 a.ephemeralKey
  let recipient ← Arr.tryFrom 43 a.recipient
  let value ← readAmount a.value
  let rseed ← Arr.tryFrom 32 a.rseed
  let rcv ← Arr.tryFrom 32 a.rcv
  pure
    { cvNet, nullifier, rk, spendRecipient, spendValue, spendRho, spendRseed, alpha
      signingPath := a.signingPath, seedFingerprint, cmx, ephemeralKey
      encCiphertext := a.encCiphertext, outCiphertext := a.outCiphertext, recipient, value
      rseed, rcv }

def PcztIronwoodAction.read (a : PcztIronwoodAction) : Option ParsedIronwoodAction := do
  let action ← a.toPcztOrchardAction.read
  let notePlaintextVersion ← readByte a.notePlaintextVersion
  pure { action, notePlaintextVersion }

def PcztOrchardBundle.read (b : PcztOrchardBundle) : Option ParsedOrchardBundle := do
  let actions ← b.actions.mapM PcztOrchardAction.read
  let flags ← readByte b.flags
  let valueBalance ← readBigInt b.valueBalance
  let anchor ← Arr.tryFrom 32 b.anchor
  pure { actions, flags, valueBalance, anchor }

def PcztIronwoodBundle.read (b : PcztIronwoodBundle) : Option ParsedIronwoodBundle := do
  let actions ← b.actions.mapM PcztIronwoodAction.read
  let flags ← readByte b.flags
  let valueBalance ← readBigInt b.valueBalance
  let anchor ← Arr.tryFrom 32 b.anchor
  pure { actions, flags, valueBalance, anchor }

def PcztTransaction.read (tx : PcztTransaction) : Option ParsedPczt := do
  let global ← tx.global.read
  let transparentInputs ← tx.transparentInputs.mapM PcztTransparentInput.read
  let transparentOutputs ← tx.transparentOutputs.mapM PcztTransparentOutput.read
  let orchardBundle ← tx.orchardBundle.mapM PcztOrchardBundle.read
  let ironwoodBundle ← tx.ironwoodBundle.mapM PcztIronwoodBundle.read
  pure { global, transparentInputs, transparentOutputs, orchardBundle, ironwoodBundle }

end Napi

/-- What reads back one by one reads back as a list. -/
theorem mapM_read {α β : Type} {toNapi : α → β} {read : β → Option α}
    (h : ∀ a, read (toNapi a) = some a) (l : List α) : (l.map toNapi).mapM read = some l := by
  induction l with
  | nil => rfl
  | cons a l ih =>
      rw [List.map_cons, List.mapM_cons, h, ih]
      rfl

theorem optionMapM_read {α β : Type} {toNapi : α → β} {read : β → Option α}
    (h : ∀ a, read (toNapi a) = some a) (x : Option α) : (x.map toNapi).mapM read = some x := by
  cases x with
  | none => rfl
  | some a => exact congrArg (Option.map some) (h a)

theorem read_globalToNapi (g : ParsedGlobal) : (globalToNapi g).read = some g := by
  simp [Napi.PcztGlobal.read, globalToNapi]

theorem read_derivationToNapi (d : ParsedBip32Derivation) :
    (derivationToNapi d).read = some d := by
  simp [Napi.PcztBip32Derivation.read, derivationToNapi]

theorem read_transparentInputToNapi (input : ParsedTransparentInput) :
    (transparentInputToNapi input).read = some input := by
  simp [Napi.PcztTransparentInput.read, transparentInputToNapi, read_derivationToNapi]

theorem read_transparentOutputToNapi (output : ParsedTransparentOutput) :
    (transparentOutputToNapi output).read = some output := by
  simp [Napi.PcztTransparentOutput.read, transparentOutputToNapi,
    optionMapM_read read_derivationToNapi]

theorem read_orchardActionToNapi (a : ParsedOrchardAction) :
    (orchardActionToNapi a).read = some a := by
  simp [Napi.PcztOrchardAction.read, orchardActionToNapi]

theorem read_ironwoodActionToNapi (a : ParsedIronwoodAction) :
    (ironwoodActionToNapi a).read = some a := by
  simp [Napi.PcztIronwoodAction.read, ironwoodActionToNapi, read_orchardActionToNapi]

theorem read_orchardBundleToNapi (b : ParsedOrchardBundle) :
    (orchardBundleToNapi b).read = some b := by
  simp [Napi.PcztOrchardBundle.read, orchardBundleToNapi, mapM_read read_orchardActionToNapi]

theorem read_ironwoodBundleToNapi (b : ParsedIronwoodBundle) :
    (ironwoodBundleToNapi b).read = some b := by
  simp [Napi.PcztIronwoodBundle.read, ironwoodBundleToNapi, mapM_read read_ironwoodActionToNapi]

/-- The object reads back as what was parsed. -/
theorem read_parsedPcztToNapi (parsed : ParsedPczt) :
    (parsedPcztToNapi parsed).read = some parsed := by
  simp [Napi.PcztTransaction.read, parsedPcztToNapi, read_globalToNapi,
    mapM_read read_transparentInputToNapi, mapM_read read_transparentOutputToNapi,
    optionMapM_read read_orchardBundleToNapi, optionMapM_read read_ironwoodBundleToNapi]

/-! ## From the text to the contents -/

section Lossless

variable {Path : Type} {T : CraftTypes Path} {V : PcztView T} {U : ParseUpstream T}

/-- An object for the device says all that the PCZT holds: the text was hex of a PCZT, and the
object reads back, through the parsed PCZT, as its contents. -/
theorem parsePczt_lossless (hserde : U.Serializes) {pcztHex : String}
    {tx : Napi.PcztTransaction} (h : Napi.parsePczt V U pcztHex = .ok tx) :
    ∃ bytes pczt c, Hex.decode pcztHex = .ok bytes ∧ V.parse bytes = .ok pczt ∧
      contents V U pczt = some c ∧
      (c.Ranged → tx.read.bind ParsedPczt.restore = some c) := by
  obtain ⟨bytes, hbytes, h⟩ := bind_eq_ok.mp h
  obtain ⟨parsed, hparsed, h⟩ := bind_eq_ok.mp h
  cases pure_eq_ok.mp h
  obtain ⟨pczt, hpczt, c, hc, hrestore⟩ := restore_parsePczt hserde (mapError_eq_ok.mp hparsed)
  refine ⟨bytes, pczt, c, mapError_eq_ok.mp hbytes, hpczt, hc, fun hranged ↦ ?_⟩
  rw [read_parsedPcztToNapi, Option.bind_some, hrestore hranged]

end Lossless

theorem parsePczt_lossless_sample : ∃ tx, Napi.parsePczt recordView recordParse "02" = .ok tx ∧
    tx.read.bind ParsedPczt.restore = some sampleContents := by
  have hok : (Napi.parsePczt recordView recordParse "02").isOk = true := by decide +kernel
  obtain ⟨tx, htx⟩ := exists_ok_of_isOk hok
  obtain ⟨bytes, pczt, c, hbytes, hpczt, hc, hrestore⟩ :=
    parsePczt_lossless recordParse_serializes htx
  have hbytes' : bytes = [2] := Except.ok.inj (hbytes.symm.trans (by decide +kernel))
  subst hbytes'
  obtain rfl : sampleStamped .ironwood = pczt := Except.ok.inj hpczt
  obtain rfl : sampleContents = c := Option.some.inj (contents_sample.symm.trans hc)
  exact ⟨tx, htx, hrestore (by decide)⟩

end LedgerZcash
