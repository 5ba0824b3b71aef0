import LedgerZcash.Crypto.PathText

/-!
# Shielded bundles taken apart for the device

The device cannot read a PCZT, so `parse_pczt` breaks one out field by field.  This is what it
makes of a bundle: an action is flattened unless a field is missing, the value balance becomes
one signed number and the flags the byte of the bundle version in force.  The bundle is accepted
when its flags can be shown and its actions could be signed (`convertOrchardBundle_isOk_iff`),
and then nothing of it is lost (`restore_convertOrchardBundle`).
-/

namespace LedgerZcash.Parse

open Hex Collect

/-! ## What the verifier lends -/

/-- `orchard::pczt::Spend`. -/
structure OrchardSpend where
  nullifier : Bytes32
  rk : Bytes32
  recipient : Option (Arr 43)
  value : Option Nat
  rho : Option Bytes32
  rseed : Option Bytes32
  alpha : Option Bytes32
  zip32Derivation : Option Derivation
deriving DecidableEq

/-- `orchard::pczt::Output`, with its encrypted note. -/
structure OrchardOutput where
  cmx : Bytes32
  epkBytes : Bytes32
  encCiphertext : List UInt8
  outCiphertext : List UInt8
  recipient : Option (Arr 43)
  value : Option Nat
  rseed : Option Bytes32
deriving DecidableEq

/-- `orchard::pczt::Action`. -/
structure OrchardAction where
  cvNet : Bytes32
  spend : OrchardSpend
  output : OrchardOutput
  rcv : Option Bytes32
deriving DecidableEq

/-- `orchard::value::Sign`. -/
inductive Sign where
  | positive
  | negative
deriving DecidableEq, Repr

/-- `ValueSum::magnitude_sign`: zero is positive. -/
structure ValueSum where
  magnitude : Nat
  sign : Sign
  pos_of_negative : sign = .negative → 0 < magnitude
deriving DecidableEq

/-- `orchard::pczt::Bundle`, over the type of its flags. -/
structure OrchardBundle (Flags : Type) where
  actions : List OrchardAction
  flags : Flags
  valueSum : ValueSum
  anchor : Bytes32
deriving DecidableEq

/-- The fields of `common::Global` that have a getter, the branch id apart. -/
structure Header where
  txVersion : Nat
  versionGroupId : Nat
  expiryHeight : Nat
deriving DecidableEq

/-- The fields of `common::Global` without a getter. -/
structure HiddenGlobal where
  fallbackLockTime : Option Nat
  coinType : Nat
  txModifiable : UInt8
deriving DecidableEq

/-- A JSON value: only a number is looked into. -/
inductive JsonValue where
  | null
  | number (n : Nat)
  | other
deriving DecidableEq

def JsonValue.asU64 : JsonValue → Option Nat
  | .number n => some n
  | _ => none

/-- The reads of a PCZT for the device.  Errors are the texts the code prints. -/
structure ParseUpstream {Path : Type} (T : CraftTypes Path) where
  /-- `orchard::bundle::BundleVersion`. -/
  BundleVersion : Type
  /-- `orchard::bundle::Flags`. -/
  Flags : Type
  header : T.Pczt → Header
  hidden : T.Pczt → HiddenGlobal
  /-- `serde_json::to_value` of the global fields. -/
  globalJson : T.Pczt → Except String (String → Option JsonValue)
  /-- `BranchId::try_from`. -/
  branchOfId : Nat → Option (Option NetworkUpgrade)
  /-- `Verifier::with_transparent` parses the transparent bundle. -/
  openTransparent : T.Pczt → Except String Unit
  /-- `Verifier::with_orchard` and its sibling. -/
  openBundle : Pool → T.Pczt → Except String (OrchardBundle Flags)
  bundleVersionForBranch : Option NetworkUpgrade → Pool → Option BundleVersion
  noteVersion : BundleVersion → NoteVersion
  /-- `Flags::to_byte`. -/
  toByte : Flags → BundleVersion → Option UInt8
  /-- `{:?}` of a branch and of a bundle version. -/
  debugBranch : Option NetworkUpgrade → String
  debugVersion : BundleVersion → String

/-! ## What the device is told -/

structure ParsedGlobal where
  txVersion : Nat
  versionGroupId : Nat
  consensusBranchId : Nat
  fallbackLockTime : Option Nat
  expiryHeight : Nat
  /-- SLIP-44. -/
  coinType : Nat
  txModifiable : UInt8
deriving DecidableEq

/-- An action with its spend and its output, flattened. -/
structure ParsedOrchardAction where
  cvNet : Bytes32
  nullifier : Bytes32
  rk : Bytes32
  spendRecipient : Arr 43
  spendValue : Nat
  spendRho : Bytes32
  spendRseed : Bytes32
  alpha : Bytes32
  signingPath : String
  seedFingerprint : Bytes32
  cmx : Bytes32
  ephemeralKey : Bytes32
  encCiphertext : List UInt8
  outCiphertext : List UInt8
  recipient : Arr 43
  value : Nat
  rseed : Bytes32
  rcv : Bytes32
deriving DecidableEq

structure ParsedOrchardBundle where
  actions : List ParsedOrchardAction
  flags : UInt8
  /-- Spends minus outputs. -/
  valueBalance : Int
  anchor : Bytes32
deriving DecidableEq

structure ParsedIronwoodAction where
  action : ParsedOrchardAction
  notePlaintextVersion : UInt8
deriving DecidableEq

structure ParsedIronwoodBundle where
  actions : List ParsedIronwoodAction
  flags : UInt8
  valueBalance : Int
  anchor : Bytes32
deriving DecidableEq

structure ParsedPczt where
  global : ParsedGlobal
  transparentInputs : List ParsedTransparentInput
  transparentOutputs : List ParsedTransparentOutput
  orchardBundle : Option ParsedOrchardBundle
  ironwoodBundle : Option ParsedIronwoodBundle
deriving DecidableEq

/-! ## One action -/

/-- `ok_or` with a text. -/
def present {α : Type} (x : Option α) (missing : String) : Except String α :=
  match x with
  | some a => .ok a
  | none => .error missing

def convertOrchardAction (action : OrchardAction) : Except String ParsedOrchardAction := do
  let spend := action.spend
  let output := action.output
  let spendRecipient ← present spend.recipient "orchard spend missing recipient"
  let spendValue ← present spend.value "orchard spend missing value"
  let spendRho ← present spend.rho "orchard spend missing rho"
  let spendRseed ← present spend.rseed "orchard spend missing rseed"
  let alpha ← present spend.alpha "orchard spend missing alpha"
  let zip32 ← present spend.zip32Derivation "orchard spend missing zip32_derivation"
  let recipient ← present output.recipient "orchard output missing recipient"
  let value ← present output.value "orchard output missing value"
  let rseed ← present output.rseed "orchard output missing rseed"
  let rcv ← present action.rcv "orchard action missing rcv"
  pure
    { cvNet := action.cvNet, nullifier := spend.nullifier, rk := spend.rk, spendRecipient
      spendValue, spendRho, spendRseed, alpha
      signingPath := formatDerivationPath zip32.path, seedFingerprint := zip32.seedFingerprint
      cmx := output.cmx, ephemeralKey := output.epkBytes, encCiphertext := output.encCiphertext
      outCiphertext := output.outCiphertext, recipient, value, rseed, rcv }

/-- The errors of the fields that an action lacks, in the order of the reads. -/
def OrchardAction.missing (action : OrchardAction) : List String :=
  [("orchard spend missing recipient", action.spend.recipient.isNone),
    ("orchard spend missing value", action.spend.value.isNone),
    ("orchard spend missing rho", action.spend.rho.isNone),
    ("orchard spend missing rseed", action.spend.rseed.isNone),
    ("orchard spend missing alpha", action.spend.alpha.isNone),
    ("orchard spend missing zip32_derivation", action.spend.zip32Derivation.isNone),
    ("orchard output missing recipient", action.output.recipient.isNone),
    ("orchard output missing value", action.output.value.isNone),
    ("orchard output missing rseed", action.output.rseed.isNone),
    ("orchard action missing rcv", action.rcv.isNone)].filterMap fun field ↦
      if field.2 then some field.1 else none

/-- The key of an action is told as a derivation. -/
structure ParsedOrchardAction.Tells (a : ParsedOrchardAction) (d : Derivation) : Prop where
  path : a.signingPath = formatDerivationPath d.path
  seed : a.seedFingerprint = d.seedFingerprint

/-- The action that was flattened, of that derivation. -/
def ParsedOrchardAction.action (a : ParsedOrchardAction) (d : Derivation) : OrchardAction where
  cvNet := a.cvNet
  spend :=
    { nullifier := a.nullifier, rk := a.rk, recipient := some a.spendRecipient
      value := some a.spendValue, rho := some a.spendRho, rseed := some a.spendRseed
      alpha := some a.alpha, zip32Derivation := some d }
  output :=
    { cmx := a.cmx, epkBytes := a.ephemeralKey, encCiphertext := a.encCiphertext
      outCiphertext := a.outCiphertext, recipient := some a.recipient
      value := some a.value, rseed := some a.rseed }
  rcv := some a.rcv

/-- The action that was flattened; the text of its path is read back. -/
def ParsedOrchardAction.restore (a : ParsedOrchardAction) : Option OrchardAction := do
  let path ← readDerivationPath a.signingPath
  pure (a.action ⟨a.seedFingerprint, path.map componentIndex⟩)

/-- The child indices of a derivation are `u32`s. -/
def Ranged (d : Derivation) : Prop := ∀ i ∈ d.path, i < u32Size

instance (d : Derivation) : Decidable (Ranged d) :=
  inferInstanceAs (Decidable (∀ i ∈ d.path, i < u32Size))

theorem map_componentIndex_read {d : Derivation} (h : Ranged d) :
    (readDerivationPath (formatDerivationPath d.path)).map (List.map componentIndex) =
      some d.path := by
  rw [readDerivationPath_format h, Option.map_some, map_componentIndex h]

theorem present_eq_ok {α : Type} {x : Option α} {missing : String} {a : α} :
    present x missing = .ok a ↔ x = some a := by
  cases x <;> simp [present]

/-- What is flattened has every field of the action. -/
theorem convertOrchardAction_eq_ok {action : OrchardAction} {parsed : ParsedOrchardAction}
    (h : convertOrchardAction action = .ok parsed) :
    ∃ d, parsed.Tells d ∧ action = parsed.action d := by
  obtain ⟨cvNet, ⟨nullifier, rk, _, _, _, _, _, _⟩, ⟨cmx, epk, enc, out, _, _, _⟩, _⟩ := action
  simp only [convertOrchardAction, bind_eq_ok, present_eq_ok, pure_eq_ok] at h
  obtain ⟨_, rfl, _, rfl, _, rfl, _, rfl, _, rfl, d, rfl, _, rfl, _, rfl, _, rfl, _, rfl, rfl⟩ := h
  exact ⟨d, ⟨rfl, rfl⟩, rfl⟩

/-- An action is refused for the first field that it lacks; without one it is flattened. -/
theorem convertOrchardAction_cases (action : OrchardAction) :
    match action.missing with
    | text :: _ => convertOrchardAction action = .error text
    | [] => ∃ parsed, convertOrchardAction action = .ok parsed := by
  obtain ⟨cvNet, ⟨nullifier, rk, spendRecipient, spendValue, spendRho, spendRseed, alpha, zip32⟩,
    ⟨cmx, epk, enc, out, recipient, value, rseed⟩, rcv⟩ := action
  rcases spendRecipient with _ | spendRecipient
  · rfl
  rcases spendValue with _ | spendValue
  · rfl
  rcases spendRho with _ | spendRho
  · rfl
  rcases spendRseed with _ | spendRseed
  · rfl
  rcases alpha with _ | alpha
  · rfl
  rcases zip32 with _ | zip32
  · rfl
  rcases recipient with _ | recipient
  · rfl
  rcases value with _ | value
  · rfl
  rcases rseed with _ | rseed
  · rfl
  rcases rcv with _ | rcv
  · rfl
  exact ⟨_, rfl⟩

theorem convertOrchardAction_isOk_iff {action : OrchardAction} :
    (∃ parsed, convertOrchardAction action = .ok parsed) ↔ action.missing = [] := by
  have h := convertOrchardAction_cases action
  cases hmissing : action.missing with
  | nil =>
      rw [hmissing] at h
      exact iff_of_true h rfl
  | cons text rest =>
      rw [hmissing] at h
      refine ⟨fun hok ↦ ?_, nofun⟩
      obtain ⟨parsed, hok⟩ := hok
      cases h.symm.trans hok

theorem restore_convertOrchardAction {action : OrchardAction} {parsed : ParsedOrchardAction}
    (hpath : ∀ d ∈ action.spend.zip32Derivation, Ranged d)
    (hok : convertOrchardAction action = .ok parsed) : parsed.restore = some action := by
  obtain ⟨d, htells, rfl⟩ := convertOrchardAction_eq_ok hok
  obtain ⟨path, hread, hmap⟩ := Option.map_eq_some_iff.mp (map_componentIndex_read (hpath d rfl))
  rw [ParsedOrchardAction.restore, htells.path, hread, htells.seed]
  exact congrArg (fun path ↦ some (parsed.action ⟨d.seedFingerprint, path⟩)) hmap

/-! ## A bundle -/

section Bundle

variable {Path : Type} {T : CraftTypes Path} (U : ParseUpstream T)

def bundleVersionFor (branch : Option NetworkUpgrade) (pool : Pool) :
    Except String U.BundleVersion :=
  present (U.bundleVersionForBranch branch pool)
    ("no " ++ pool.debug ++ " bundle version for branch " ++ U.debugBranch branch)

/-- The magnitude with its sign. -/
def ValueSum.balance (sum : ValueSum) : Int :=
  match sum.sign with
  | .negative => -(sum.magnitude : Int)
  | .positive => sum.magnitude

def convertOrchardBundle (bundle : OrchardBundle U.Flags) (branch : Option NetworkUpgrade)
    (pool : Pool) : Except String (Option ParsedOrchardBundle) := do
  if bundle.actions.isEmpty then pure none
  else do
    let bundleVersion ← bundleVersionFor U branch pool
    let actions ← bundle.actions.mapM convertOrchardAction
    let flags ← present (U.toByte bundle.flags bundleVersion)
      ("bundle flags not representable for bundle version " ++ U.debugVersion bundleVersion)
    pure (some
      { actions, flags, valueBalance := bundle.valueSum.balance, anchor := bundle.anchor })

def notePlaintextLeadByte : NoteVersion → UInt8
  | .v2 => 0x02
  | .v3 => 0x03

def convertIronwoodBundle (bundle : OrchardBundle U.Flags) (branch : Option NetworkUpgrade) :
    Except String (Option ParsedIronwoodBundle) := do
  match ← convertOrchardBundle U bundle branch .ironwood with
  | none => pure none
  | some orchardShaped => do
      let bundleVersion ← bundleVersionFor U branch .ironwood
      let notePlaintextVersion := notePlaintextLeadByte (U.noteVersion bundleVersion)
      pure (some
        { actions := orchardShaped.actions.map fun action ↦ { action, notePlaintextVersion }
          flags := orchardShaped.flags, valueBalance := orchardShaped.valueBalance
          anchor := orchardShaped.anchor })

/-- What a bundle shows the device: nothing without an action, else its flags as the byte of
the version in force. -/
def shown (bundle : OrchardBundle U.Flags) (branch : Option NetworkUpgrade) (pool : Pool) :
    Option (Option (OrchardBundle UInt8)) :=
  if bundle.actions.isEmpty then some none
  else do
    let bundleVersion ← U.bundleVersionForBranch branch pool
    let flags ← U.toByte bundle.flags bundleVersion
    pure (some { bundle with flags })

/-- The same with the note version of the bundle. -/
def shownIronwood (bundle : OrchardBundle U.Flags) (branch : Option NetworkUpgrade) :
    Option (Option (OrchardBundle UInt8 × NoteVersion)) := do
  match ← shown U bundle branch .ironwood with
  | none => pure none
  | some b => do
      let bundleVersion ← U.bundleVersionForBranch branch .ironwood
      pure (some (b, U.noteVersion bundleVersion))

end Bundle

/-! ### Reading a bundle back -/

def readBalance (balance : Int) : ValueSum where
  magnitude := balance.natAbs
  sign := if balance < 0 then .negative else .positive
  pos_of_negative h := by
    split at h
    · exact Int.natAbs_pos.mpr (ne_of_lt ‹_›)
    · cases h

theorem readBalance_balance (sum : ValueSum) : readBalance sum.balance = sum := by
  obtain ⟨magnitude, sign, hpos⟩ := sum
  cases sign with
  | negative =>
      have hneg : -(magnitude : Int) < 0 := Int.neg_neg_of_pos (Int.natCast_pos.mpr (hpos rfl))
      rw [readBalance, ValueSum.mk.injEq]
      exact ⟨(Int.natAbs_neg _).trans (Int.natAbs_natCast _), if_pos hneg⟩
  | positive =>
      rw [readBalance, ValueSum.mk.injEq]
      exact ⟨Int.natAbs_natCast _, if_neg (Int.not_lt.mpr (Int.natCast_nonneg _))⟩

def ParsedOrchardBundle.restore (b : ParsedOrchardBundle) : Option (OrchardBundle UInt8) := do
  let actions ← b.actions.mapM ParsedOrchardAction.restore
  pure { actions, flags := b.flags, valueSum := readBalance b.valueBalance, anchor := b.anchor }

/-- The note version that a lead byte signals. -/
def readLeadByte (b : UInt8) : Option NoteVersion :=
  if b = 0x02 then some .v2 else if b = 0x03 then some .v3 else none

theorem readLeadByte_notePlaintextLeadByte (version : NoteVersion) :
    readLeadByte (notePlaintextLeadByte version) = some version := by
  cases version <;> rfl

/-- A bundle with the note version that its first action signals. -/
def ParsedIronwoodBundle.restore (b : ParsedIronwoodBundle) :
    Option (OrchardBundle UInt8 × NoteVersion) := do
  let bundle ← ParsedOrchardBundle.restore
    { actions := b.actions.map ParsedIronwoodAction.action, flags := b.flags
      valueBalance := b.valueBalance, anchor := b.anchor }
  let first ← b.actions.head?
  let version ← readLeadByte first.notePlaintextVersion
  pure (bundle, version)

section Bundle

variable {Path : Type} {T : CraftTypes Path} {U : ParseUpstream T}
  {bundle : OrchardBundle U.Flags} {branch : Option NetworkUpgrade} {pool : Pool}

/-- Every action can be signed. -/
def OrchardBundle.Complete {Flags : Type} (bundle : OrchardBundle Flags) : Prop :=
  ∀ action ∈ bundle.actions, action.missing = []

/-- All paths of the actions are in range. -/
def OrchardBundle.Ranged {Flags : Type} (bundle : OrchardBundle Flags) : Prop :=
  ∀ action ∈ bundle.actions, ∀ d ∈ action.spend.zip32Derivation, Parse.Ranged d

instance {Flags : Type} (bundle : OrchardBundle Flags) : Decidable bundle.Complete :=
  inferInstanceAs (Decidable (∀ action ∈ bundle.actions, action.missing = []))

instance {Flags : Type} (bundle : OrchardBundle Flags) : Decidable bundle.Ranged :=
  inferInstanceAs (Decidable (∀ action ∈ bundle.actions, ∀ d ∈ action.spend.zip32Derivation, _))

theorem exists_mapM_convertOrchardAction {Flags : Type} {bundle : OrchardBundle Flags} :
    (∃ actions, bundle.actions.mapM convertOrchardAction = .ok actions) ↔ bundle.Complete := by
  constructor
  · rintro ⟨actions, h⟩ action haction
    obtain ⟨parsed, -, hparsed⟩ := exists_of_forall₂_left (mapM_eq_ok_iff.mp h) haction
    exact convertOrchardAction_isOk_iff.mp ⟨parsed, hparsed⟩
  · exact fun h ↦ exists_mapM_eq_ok fun action haction ↦
      convertOrchardAction_isOk_iff.mpr (h action haction)

theorem convertOrchardBundle_eq_ok {parsed : Option ParsedOrchardBundle} :
    convertOrchardBundle U bundle branch pool = .ok parsed ↔
      (bundle.actions = [] ∧ parsed = none) ∨
      (bundle.actions ≠ [] ∧ ∃ version actions flags,
        U.bundleVersionForBranch branch pool = some version ∧
        bundle.actions.mapM convertOrchardAction = .ok actions ∧
        U.toByte bundle.flags version = some flags ∧
        parsed = some ⟨actions, flags, bundle.valueSum.balance, bundle.anchor⟩) := by
  unfold convertOrchardBundle
  split
  · rename_i hnil
    rw [List.isEmpty_iff] at hnil
    simp [hnil, pure, Except.pure, eq_comm]
  · rename_i hcons
    rw [List.isEmpty_iff] at hcons
    simp only [hcons, false_and, false_or, ne_eq, not_false_eq_true, true_and, bind_eq_ok,
      pure_eq_ok, bundleVersionFor, present_eq_ok]
    constructor
    · rintro ⟨version, hversion, actions, hactions, flags, hflags, rfl⟩
      exact ⟨version, actions, flags, hversion, hactions, hflags, rfl⟩
    · rintro ⟨version, actions, flags, hversion, hactions, hflags, rfl⟩
      exact ⟨version, hversion, actions, hactions, flags, hflags, rfl⟩

theorem shown_of_nil (h : bundle.actions = []) : shown U bundle branch pool = some none :=
  if_pos (List.isEmpty_iff.mpr h)

theorem shown_eq_some {b : OrchardBundle UInt8} : shown U bundle branch pool = some (some b) ↔
    bundle.actions ≠ [] ∧ ∃ version flags, U.bundleVersionForBranch branch pool = some version ∧
      U.toByte bundle.flags version = some flags ∧ b = { bundle with flags } := by
  unfold shown
  split
  · rename_i hnil
    simp [List.isEmpty_iff.mp hnil]
  · rename_i hcons
    rw [List.isEmpty_iff] at hcons
    simp only [ne_eq, hcons, not_false_eq_true, true_and, Option.bind_eq_bind,
      Option.bind_eq_some_iff, Option.pure_def, Option.some.injEq]
    constructor
    · rintro ⟨version, hversion, flags, hflags, rfl⟩
      exact ⟨version, flags, hversion, hflags, rfl⟩
    · rintro ⟨version, flags, hversion, hflags, rfl⟩
      exact ⟨version, hversion, flags, hflags, rfl⟩

/-- Nothing is shown of an empty bundle only. -/
theorem shown_eq_none : shown U bundle branch pool = some none ↔ bundle.actions = [] := by
  refine ⟨fun h ↦ ?_, shown_of_nil⟩
  by_contra hcons
  unfold shown at h
  rw [if_neg (by rwa [List.isEmpty_iff])] at h
  simp [Option.bind_eq_some_iff] at h

/-- What holds of the actions of a bundle holds of those that it shows. -/
theorem forall_actions_shown {x : Option (OrchardBundle UInt8)} {Q : OrchardAction → Prop}
    (h : shown U bundle branch pool = some x) :
    (∀ action ∈ bundle.actions, Q action) ↔ ∀ b ∈ x, ∀ action ∈ b.actions, Q action := by
  cases x with
  | none => simp [shown_eq_none.mp h]
  | some b =>
      obtain ⟨-, version, flags, -, -, rfl⟩ := shown_eq_some.mp h
      simp

/-- A bundle is accepted when it can be shown and its actions can be signed. -/
theorem convertOrchardBundle_isOk_iff :
    (∃ parsed, convertOrchardBundle U bundle branch pool = .ok parsed) ↔
      ∃ x, shown U bundle branch pool = some x ∧ ∀ b ∈ x, b.Complete := by
  constructor
  · rintro ⟨parsed, h⟩
    rcases convertOrchardBundle_eq_ok.mp h with ⟨hnil, -⟩ |
      ⟨hcons, version, actions, flags, hversion, hactions, hflags, -⟩
    · exact ⟨none, shown_of_nil hnil, nofun⟩
    · refine ⟨_, shown_eq_some.mpr ⟨hcons, version, flags, hversion, hflags, rfl⟩, ?_⟩
      rintro b ⟨⟩
      exact exists_mapM_convertOrchardAction.mp ⟨actions, hactions⟩
  · rintro ⟨x, hx, hcomplete⟩
    obtain ⟨actions, hactions⟩ :=
      exists_mapM_convertOrchardAction.mpr ((forall_actions_shown hx).mpr hcomplete)
    cases x with
    | none => exact ⟨none, convertOrchardBundle_eq_ok.mpr (.inl ⟨shown_eq_none.mp hx, rfl⟩)⟩
    | some b =>
        obtain ⟨hcons, version, flags, hversion, hflags, -⟩ := shown_eq_some.mp hx
        exact ⟨_, convertOrchardBundle_eq_ok.mpr
          (.inr ⟨hcons, version, actions, flags, hversion, hactions, hflags, rfl⟩)⟩

/-- What was shown of a bundle can be restored. -/
theorem restore_convertOrchardBundle {parsed : Option ParsedOrchardBundle}
    (hranged : bundle.Ranged) (h : convertOrchardBundle U bundle branch pool = .ok parsed) :
    parsed.mapM ParsedOrchardBundle.restore = shown U bundle branch pool := by
  rcases convertOrchardBundle_eq_ok.mp h with ⟨hnil, rfl⟩ |
    ⟨hcons, version, actions, flags, hversion, hactions, hflags, rfl⟩
  · exact (shown_of_nil hnil).symm
  · have hrestore : actions.mapM ParsedOrchardAction.restore = some bundle.actions :=
      mapM_inverse (fun action haction parsed ↦
        restore_convertOrchardAction (hranged action haction)) hactions
    rw [shown_eq_some.mpr ⟨hcons, version, flags, hversion, hflags, rfl⟩]
    show (ParsedOrchardBundle.restore _).map some = _
    rw [ParsedOrchardBundle.restore]
    dsimp only
    rw [hrestore, readBalance_balance]
    rfl

theorem convertIronwoodBundle_eq_ok {parsed : Option ParsedIronwoodBundle} :
    convertIronwoodBundle U bundle branch = .ok parsed ↔
      (convertOrchardBundle U bundle branch .ironwood = .ok none ∧ parsed = none) ∨
      ∃ b version, convertOrchardBundle U bundle branch .ironwood = .ok (some b) ∧
        U.bundleVersionForBranch branch .ironwood = some version ∧
        parsed = some ⟨b.actions.map fun action ↦
          ⟨action, notePlaintextLeadByte (U.noteVersion version)⟩, b.flags, b.valueBalance,
            b.anchor⟩ := by
  rw [convertIronwoodBundle, bind_eq_ok]
  constructor
  · rintro ⟨_ | b, hb, h⟩
    · exact .inl ⟨hb, (pure_eq_ok.mp h).symm⟩
    · obtain ⟨version, hversion, h⟩ := bind_eq_ok.mp h
      exact .inr ⟨b, version, hb, present_eq_ok.mp hversion, (pure_eq_ok.mp h).symm⟩
  · rintro (⟨hb, rfl⟩ | ⟨b, version, hb, hversion, rfl⟩)
    · exact ⟨none, hb, rfl⟩
    · exact ⟨some b, hb, bind_eq_ok.mpr ⟨version, present_eq_ok.mpr hversion, rfl⟩⟩

theorem shownIronwood_eq_some {x : Option (OrchardBundle UInt8 × NoteVersion)} :
    shownIronwood U bundle branch = some x ↔
      (shown U bundle branch .ironwood = some none ∧ x = none) ∨
      ∃ b version, shown U bundle branch .ironwood = some (some b) ∧
        U.bundleVersionForBranch branch .ironwood = some version ∧
        x = some (b, U.noteVersion version) := by
  rw [shownIronwood, Option.bind_eq_bind, Option.bind_eq_some_iff]
  constructor
  · rintro ⟨_ | b, hb, h⟩
    · exact .inl ⟨hb, (Option.some.inj h).symm⟩
    · obtain ⟨version, hversion, h⟩ := Option.bind_eq_some_iff.mp h
      exact .inr ⟨b, version, hb, hversion, (Option.some.inj h).symm⟩
  · rintro (⟨hb, rfl⟩ | ⟨b, version, hb, hversion, rfl⟩)
    · exact ⟨none, hb, rfl⟩
    · exact ⟨some b, hb, Option.bind_eq_some_iff.mpr ⟨version, hversion, rfl⟩⟩

/-- The note version is that of a bundle version which the flags have already needed. -/
theorem exists_shownIronwood {x : Option (OrchardBundle UInt8)}
    (h : shown U bundle branch .ironwood = some x) :
    ∃ y, shownIronwood U bundle branch = some y ∧ y.map Prod.fst = x := by
  cases x with
  | none => exact ⟨none, shownIronwood_eq_some.mpr (.inl ⟨h, rfl⟩), rfl⟩
  | some b =>
      obtain ⟨-, version, flags, hversion, -, -⟩ := shown_eq_some.mp h
      exact ⟨_, shownIronwood_eq_some.mpr (.inr ⟨b, version, h, hversion, rfl⟩), rfl⟩

theorem exists_shown {y : Option (OrchardBundle UInt8 × NoteVersion)}
    (h : shownIronwood U bundle branch = some y) :
    shown U bundle branch .ironwood = some (y.map Prod.fst) := by
  rcases shownIronwood_eq_some.mp h with ⟨hb, rfl⟩ | ⟨b, version, hb, -, rfl⟩ <;> exact hb

theorem convertIronwoodBundle_isOk_iff :
    (∃ parsed, convertIronwoodBundle U bundle branch = .ok parsed) ↔
      ∃ y, shownIronwood U bundle branch = some y ∧ ∀ b ∈ y, b.1.Complete := by
  have hcomplete : ∀ y : Option (OrchardBundle UInt8 × NoteVersion),
      (∀ b ∈ y, b.1.Complete) ↔ ∀ b ∈ y.map Prod.fst, b.Complete := by
    rintro (_ | ⟨b, version⟩) <;> simp
  constructor
  · rintro ⟨parsed, h⟩
    have hok : ∃ b, convertOrchardBundle U bundle branch .ironwood = .ok b := by
      rcases convertIronwoodBundle_eq_ok.mp h with ⟨hb, -⟩ | ⟨b, version, hb, -, -⟩
      · exact ⟨_, hb⟩
      · exact ⟨_, hb⟩
    obtain ⟨x, hx, hall⟩ := convertOrchardBundle_isOk_iff.mp hok
    obtain ⟨y, hy, rfl⟩ := exists_shownIronwood hx
    exact ⟨y, hy, (hcomplete y).mpr hall⟩
  · rintro ⟨y, hy, hall⟩
    obtain ⟨b, hb⟩ := convertOrchardBundle_isOk_iff.mpr
      ⟨_, exists_shown hy, (hcomplete y).mp hall⟩
    cases b with
    | none => exact ⟨none, convertIronwoodBundle_eq_ok.mpr (.inl ⟨hb, rfl⟩)⟩
    | some b =>
        obtain hnil | ⟨-, version, actions, flags, hversion, -⟩ := convertOrchardBundle_eq_ok.mp hb
        · cases hnil.2
        · exact ⟨_, convertIronwoodBundle_eq_ok.mpr (.inr ⟨b, version, hb, hversion, rfl⟩)⟩

/-- A bundle that shows anything has an action. -/
theorem actions_ne_nil {b : ParsedOrchardBundle}
    (h : convertOrchardBundle U bundle branch pool = .ok (some b)) : b.actions ≠ [] := by
  rcases convertOrchardBundle_eq_ok.mp h with ⟨-, hnone⟩ |
    ⟨hcons, version, actions, flags, -, hactions, -, heq⟩
  · cases hnone
  · cases heq
    rintro rfl
    exact hcons (List.forall₂_nil_right_iff.mp (mapM_eq_ok_iff.mp hactions))

theorem map_action_map (actions : List ParsedOrchardAction) (byte : UInt8) :
    (actions.map fun action ↦ (⟨action, byte⟩ : ParsedIronwoodAction)).map
      ParsedIronwoodAction.action = actions :=
  (List.map_map ..).trans (List.map_id _)

/-- What was shown of the Ironwood bundle can be restored, its note version included. -/
theorem restore_convertIronwoodBundle {parsed : Option ParsedIronwoodBundle}
    (hranged : bundle.Ranged) (h : convertIronwoodBundle U bundle branch = .ok parsed) :
    parsed.mapM ParsedIronwoodBundle.restore = shownIronwood U bundle branch := by
  rcases convertIronwoodBundle_eq_ok.mp h with ⟨hb, rfl⟩ | ⟨b, version, hb, hversion, rfl⟩
  · have hshown := restore_convertOrchardBundle hranged hb
    exact (shownIronwood_eq_some.mpr (.inl ⟨hshown.symm, rfl⟩)).symm
  · obtain ⟨x, hx, -⟩ := convertOrchardBundle_isOk_iff.mp ⟨_, hb⟩
    have hshown : (ParsedOrchardBundle.restore b).map some = some x :=
      (restore_convertOrchardBundle hranged hb).trans hx
    obtain ⟨restored, hrestored, rfl⟩ := Option.map_eq_some_iff.mp hshown
    obtain ⟨first, rest, hactions⟩ := List.exists_cons_of_ne_nil (actions_ne_nil hb)
    rw [shownIronwood_eq_some.mpr (.inr ⟨restored, version, hx, hversion, rfl⟩)]
    show (ParsedIronwoodBundle.restore _).map some = _
    rw [ParsedIronwoodBundle.restore]
    dsimp only
    rw [map_action_map, hrestored, hactions]
    simp [readLeadByte_notePlaintextLeadByte]

end Bundle

end LedgerZcash.Parse
