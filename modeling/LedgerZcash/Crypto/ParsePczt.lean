import LedgerZcash.Crypto.Parse

/-!
# A PCZT taken apart for the device

`parse_pczt` reads the global fields of a PCZT, three of them by their names in its JSON, its
transparent items and its bundles, the Ironwood one from V6 on.  A PCZT is accepted exactly when
its bundles can be read on its branch and the device could sign it (`parsePczt_isOk_iff`), and
then what the device is told reads back as what the PCZT holds (`restore_parsePczt`).
-/

namespace LedgerZcash.Parse

open Hex Collect

/-! ## The transparent items -/

/-- The map with the derivation that was told, if any. -/
def restoreMap (d : Option ParsedBip32Derivation) : Option DerivationMap :=
  match d with
  | none => some ∅
  | some d => do
      let path ← readDerivationPath d.signingPath
      pure (AList.singleton d.pubkey ⟨d.seedFingerprint, path.map componentIndex⟩)

def restoreInput (input : ParsedTransparentInput) : Option PcztInput := do
  let bip32Derivation ← restoreMap (some input.derivation)
  pure
    { prevoutTxid := input.prevoutTxid, prevoutIndex := input.prevoutIndex
      sequence := input.sequence, value := input.value, scriptPubkey := input.scriptPubkey
      sighashType := input.sighashType, bip32Derivation }

def restoreOutput (output : ParsedTransparentOutput) : Option PcztOutput := do
  let bip32Derivation ← restoreMap output.derivation
  pure { value := output.value, scriptPubkey := output.scriptPubkey, bip32Derivation }

/-- All paths of a map are in range. -/
def RangedMap (map : DerivationMap) : Prop := ∀ x ∈ map.entries, Ranged x.2

instance (map : DerivationMap) : Decidable (RangedMap map) :=
  inferInstanceAs (Decidable (∀ x ∈ map.entries, Ranged x.2))

theorem restoreMap_singleDerivation {map : DerivationMap} {d : Option ParsedBip32Derivation}
    (hranged : RangedMap map) (h : singleDerivation map = .ok d) : restoreMap d = some map := by
  unfold singleDerivation at h
  split at h
  · rename_i hnil
    cases h
    exact congrArg some (AList.ext hnil.symm)
  · rename_i pubkey deriv hone
    cases h
    obtain ⟨path, hread, hmap⟩ := Option.map_eq_some_iff.mp
      (map_componentIndex_read (hranged ⟨pubkey, deriv⟩ (hone ▸ List.mem_singleton_self _)))
    rw [restoreMap]
    dsimp only
    rw [hread]
    refine congrArg some (AList.ext ?_)
    rw [hone, hmap]
    rfl
  · cases h

theorem convertTransparentInput_isOk_iff {input : PcztInput} :
    (∃ parsed, convertTransparentInput input = .ok parsed) ↔
      input.bip32Derivation.entries.length = 1 := by
  rw [convertTransparentInput, singleDerivation]
  rcases input.bip32Derivation.entries with _ | ⟨x, _ | ⟨y, rest⟩⟩ <;>
    simp [bind, Except.bind, pure, Except.pure, throw, throwThe, MonadExceptOf.throw]

theorem convertTransparentOutput_isOk_iff {output : PcztOutput} :
    (∃ parsed, convertTransparentOutput output = .ok parsed) ↔
      output.bip32Derivation.entries.length ≤ 1 := by
  rw [← singleDerivation_eq_ok]
  simp only [convertTransparentOutput, bind_eq_ok, pure_eq_ok]
  constructor
  · rintro ⟨_, d, hd, -⟩
    exact ⟨d, hd⟩
  · rintro ⟨d, hd⟩
    exact ⟨_, d, hd, rfl⟩

theorem restore_convertTransparentInput {input : PcztInput} {parsed : ParsedTransparentInput}
    (hranged : RangedMap input.bip32Derivation) (h : convertTransparentInput input = .ok parsed) :
    restoreInput parsed = some input := by
  obtain ⟨d, hd, h⟩ := bind_eq_ok.mp h
  have hmap := restoreMap_singleDerivation hranged hd
  cases d with
  | none => cases h
  | some d =>
      cases h
      rw [restoreInput]
      dsimp only
      rw [hmap]
      rfl

theorem restore_convertTransparentOutput {output : PcztOutput} {parsed : ParsedTransparentOutput}
    (hranged : RangedMap output.bip32Derivation)
    (h : convertTransparentOutput output = .ok parsed) : restoreOutput parsed = some output := by
  obtain ⟨d, hd, h⟩ := bind_eq_ok.mp h
  cases pure_eq_ok.mp h
  rw [restoreOutput, restoreMap_singleDerivation hranged hd]
  rfl

/-! ## The whole PCZT -/

section Pczt

variable {Path : Type} {T : CraftTypes Path} (V : PcztView T) (U : ParseUpstream T)

/-- The first version with an Ironwood pool. -/
def v6TxVersion : Nat := 6

def parseGlobal (pczt : T.Pczt) : Except Error ParsedGlobal := do
  let json ← (U.globalJson pczt).mapError fun e ↦ Error.parse ("global serialize failed: " ++ e)
  let coinType ← okOr ((json "coin_type").bind JsonValue.asU64) (.parse "global.coin_type missing")
  let txModifiable ← okOr ((json "tx_modifiable").bind JsonValue.asU64)
    (.parse "global.tx_modifiable missing")
  let fallbackLockTime ← match json "fallback_lock_time" with
    | none | some .null => pure none
    | some v => do
        let n ← okOr v.asU64 (.parse "global.fallback_lock_time invalid")
        pure (some (asU32 n))
  pure
    { txVersion := (U.header pczt).txVersion
      versionGroupId := (U.header pczt).versionGroupId
      consensusBranchId := V.consensusBranchId pczt, fallbackLockTime
      expiryHeight := (U.header pczt).expiryHeight, coinType := asU32 coinType
      txModifiable := UInt8.ofNat txModifiable }

/-- `{:#010x}`. -/
def branchIdText (id : Nat) : String :=
  "0x" ++ String.ofList (List.replicate (8 - (Nat.toDigits 16 id).length) '0' ++
    Nat.toDigits 16 id)

/-- The bundle of a pool as the verifier lends it. -/
def withBundle (pool : Pool) (pczt : T.Pczt) : Except Error (OrchardBundle U.Flags) :=
  (U.openBundle pool pczt).mapError fun e ↦ .parse (pool.name ++ " bundle: " ++ e)

def parseOrchardBundle (pczt : T.Pczt) (branch : Option NetworkUpgrade) :
    Except Error (Option ParsedOrchardBundle) := do
  let bundle ← withBundle U .orchard pczt
  (convertOrchardBundle U bundle branch .orchard).mapError Error.parse

/-- Below V6 the Ironwood section is not looked at. -/
def parseIronwoodBundle (pczt : T.Pczt) (branch : Option NetworkUpgrade) (txVersion : Nat) :
    Except Error (Option ParsedIronwoodBundle) :=
  if v6TxVersion ≤ txVersion then do
    let bundle ← withBundle U .ironwood pczt
    (convertIronwoodBundle U bundle branch).mapError Error.parse
  else pure none

def parsePczt (bytes : List UInt8) : Except Error ParsedPczt := do
  let pczt ← (V.parse bytes).mapError fun e ↦ Error.parse ("PCZT parse failed: " ++ e)
  let global ← parseGlobal V U pczt
  let branch ← okOr (U.branchOfId global.consensusBranchId)
    (.parse ("unrecognized consensus branch id " ++ branchIdText global.consensusBranchId))
  (U.openTransparent pczt).mapError fun e ↦ Error.parse ("transparent bundle: " ++ e)
  let (transparentInputs, transparentOutputs) ← convertTransparent V pczt
  let orchardBundle ← parseOrchardBundle U pczt branch
  let ironwoodBundle ← parseIronwoodBundle U pczt branch global.txVersion
  pure { global, transparentInputs, transparentOutputs, orchardBundle, ironwoodBundle }

/-! ### What a PCZT holds -/

/-- What a PCZT holds of what the device is told. -/
structure Contents where
  global : ParsedGlobal
  inputs : List PcztInput
  outputs : List PcztOutput
  orchard : Option (OrchardBundle UInt8)
  ironwood : Option (OrchardBundle UInt8 × NoteVersion)
deriving DecidableEq

/-- The global fields themselves. -/
def globalOf (pczt : T.Pczt) : ParsedGlobal where
  txVersion := (U.header pczt).txVersion
  versionGroupId := (U.header pczt).versionGroupId
  consensusBranchId := V.consensusBranchId pczt
  fallbackLockTime := (U.hidden pczt).fallbackLockTime
  expiryHeight := (U.header pczt).expiryHeight
  coinType := (U.hidden pczt).coinType
  txModifiable := (U.hidden pczt).txModifiable

def orchardContents (pczt : T.Pczt) (branch : Option NetworkUpgrade) :
    Option (Option (OrchardBundle UInt8)) := do
  let bundle ← (U.openBundle .orchard pczt).toOption
  shown U bundle branch .orchard

/-- Nothing below V6. -/
def ironwoodContents (pczt : T.Pczt) (branch : Option NetworkUpgrade) :
    Option (Option (OrchardBundle UInt8 × NoteVersion)) :=
  if v6TxVersion ≤ (U.header pczt).txVersion then do
    let bundle ← (U.openBundle .ironwood pczt).toOption
    shownIronwood U bundle branch
  else pure none

/-- None of a PCZT whose bundles cannot be read on its branch. -/
def contents (pczt : T.Pczt) : Option Contents := do
  let branch ← U.branchOfId (V.consensusBranchId pczt)
  (U.openTransparent pczt).toOption
  let orchard ← orchardContents U pczt branch
  let ironwood ← ironwoodContents U pczt branch
  pure
    { global := globalOf V U pczt, inputs := V.inputs pczt, outputs := V.outputs pczt, orchard
      ironwood }

/-- The device can sign: each input has one key, an output at most one, and no action lacks
a field. -/
structure Contents.Signable (c : Contents) : Prop where
  inputs : ∀ input ∈ c.inputs, input.bip32Derivation.entries.length = 1
  outputs : ∀ output ∈ c.outputs, output.bip32Derivation.entries.length ≤ 1
  orchard : ∀ b ∈ c.orchard, b.Complete
  ironwood : ∀ b ∈ c.ironwood, b.1.Complete

/-- All child indices are `u32`s. -/
structure Contents.Ranged (c : Contents) : Prop where
  inputs : ∀ input ∈ c.inputs, RangedMap input.bip32Derivation
  outputs : ∀ output ∈ c.outputs, RangedMap output.bip32Derivation
  orchard : ∀ b ∈ c.orchard, b.Ranged
  ironwood : ∀ b ∈ c.ironwood, b.1.Ranged

instance (c : Contents) : Decidable c.Signable :=
  decidable_of_iff ((∀ input ∈ c.inputs, input.bip32Derivation.entries.length = 1) ∧
      (∀ output ∈ c.outputs, output.bip32Derivation.entries.length ≤ 1) ∧
      (∀ b ∈ c.orchard, b.Complete) ∧ ∀ b ∈ c.ironwood, b.1.Complete)
    ⟨fun h ↦ ⟨h.1, h.2.1, h.2.2.1, h.2.2.2⟩, fun h ↦ ⟨h.1, h.2, h.3, h.4⟩⟩

instance (c : Contents) : Decidable c.Ranged :=
  decidable_of_iff ((∀ input ∈ c.inputs, RangedMap input.bip32Derivation) ∧
      (∀ output ∈ c.outputs, RangedMap output.bip32Derivation) ∧
      (∀ b ∈ c.orchard, b.Ranged) ∧ ∀ b ∈ c.ironwood, b.1.Ranged)
    ⟨fun h ↦ ⟨h.1, h.2.1, h.2.2.1, h.2.2.2⟩, fun h ↦ ⟨h.1, h.2, h.3, h.4⟩⟩

/-- What the device was told, as it is in the PCZT. -/
def ParsedPczt.restore (p : ParsedPczt) : Option Contents := do
  let inputs ← p.transparentInputs.mapM restoreInput
  let outputs ← p.transparentOutputs.mapM restoreOutput
  let orchard ← p.orchardBundle.mapM ParsedOrchardBundle.restore
  let ironwood ← p.ironwoodBundle.mapM ParsedIronwoodBundle.restore
  pure { global := p.global, inputs, outputs, orchard, ironwood }

/-- Serde writes each field under its name, a missing lock time as null. -/
structure ParseUpstream.Serializes : Prop where
  coinType (pczt : T.Pczt) : (U.hidden pczt).coinType < u32Size
  fallbackLockTime (pczt : T.Pczt) : ∀ t ∈ (U.hidden pczt).fallbackLockTime, t < u32Size
  json (pczt : T.Pczt) : ∃ json, U.globalJson pczt = .ok json ∧
    json "coin_type" = some (.number (U.hidden pczt).coinType) ∧
    json "tx_modifiable" = some (.number (U.hidden pczt).txModifiable.toNat) ∧
    json "fallback_lock_time" =
      some ((U.hidden pczt).fallbackLockTime.elim .null JsonValue.number)

variable {V U}

/-- The fields read by their names are the PCZT's own. -/
theorem parseGlobal_eq (hserde : U.Serializes) (pczt : T.Pczt) :
    parseGlobal V U pczt = .ok (globalOf V U pczt) := by
  obtain ⟨json, hjson, hcoin, hmodifiable, hlock⟩ := hserde.json pczt
  have hcoinType := asU32_of_lt (hserde.coinType pczt)
  rw [parseGlobal, hjson]
  simp only [Except.mapError, ok_bind, hcoin, hmodifiable, hlock, Option.bind_some,
    JsonValue.asU64, okOr]
  rw [globalOf, hcoinType, UInt8.ofNat_toNat]
  cases htime : (U.hidden pczt).fallbackLockTime with
  | none => rfl
  | some t =>
      have ht := asU32_of_lt (hserde.fallbackLockTime pczt t htime)
      simp [ht, pure, Except.pure, bind, Except.bind]

variable {pczt : T.Pczt} {branch : Option NetworkUpgrade} {bytes : List UInt8}

theorem withBundle_eq_ok {pool : Pool} {bundle : OrchardBundle U.Flags} :
    withBundle U pool pczt = .ok bundle ↔ (U.openBundle pool pczt).toOption = some bundle :=
  mapError_eq_ok.trans toOption_eq_some.symm

theorem contents_eq_some {c : Contents} : contents V U pczt = some c ↔
    ∃ branch orchard ironwood, U.branchOfId (V.consensusBranchId pczt) = some branch ∧
      U.openTransparent pczt = .ok () ∧ orchardContents U pczt branch = some orchard ∧
      ironwoodContents U pczt branch = some ironwood ∧
      c = ⟨globalOf V U pczt, V.inputs pczt, V.outputs pczt, orchard, ironwood⟩ := by
  simp only [contents, Option.bind_eq_bind, Option.bind_eq_some_iff, Option.pure_def,
    Option.some.injEq, toOption_eq_some]
  constructor
  · rintro ⟨branch, hbranch, ⟨⟩, hopen, orchard, horchard, ironwood, hironwood, rfl⟩
    exact ⟨branch, orchard, ironwood, hbranch, hopen, horchard, hironwood, rfl⟩
  · rintro ⟨branch, orchard, ironwood, hbranch, hopen, horchard, hironwood, rfl⟩
    exact ⟨branch, hbranch, (), hopen, orchard, horchard, ironwood, hironwood, rfl⟩

theorem parseOrchardBundle_isOk_iff :
    (∃ parsed, parseOrchardBundle U pczt branch = .ok parsed) ↔
      ∃ x, orchardContents U pczt branch = some x ∧ ∀ b ∈ x, b.Complete := by
  simp only [parseOrchardBundle, orchardContents, bind_eq_ok, withBundle_eq_ok,
    Option.bind_eq_bind, Option.bind_eq_some_iff, mapError_eq_ok]
  constructor
  · rintro ⟨parsed, bundle, hbundle, hparsed⟩
    obtain ⟨x, hx, hcomplete⟩ := convertOrchardBundle_isOk_iff.mp ⟨parsed, hparsed⟩
    exact ⟨x, ⟨bundle, hbundle, hx⟩, hcomplete⟩
  · rintro ⟨x, ⟨bundle, hbundle, hx⟩, hcomplete⟩
    obtain ⟨parsed, hparsed⟩ := convertOrchardBundle_isOk_iff.mpr ⟨x, hx, hcomplete⟩
    exact ⟨parsed, bundle, hbundle, hparsed⟩

theorem parseIronwoodBundle_isOk_iff :
    (∃ parsed, parseIronwoodBundle U pczt branch (U.header pczt).txVersion = .ok parsed) ↔
      ∃ y, ironwoodContents U pczt branch = some y ∧ ∀ b ∈ y, b.1.Complete := by
  unfold parseIronwoodBundle ironwoodContents
  split
  · simp only [bind_eq_ok, withBundle_eq_ok, Option.bind_eq_bind, Option.bind_eq_some_iff,
      mapError_eq_ok]
    constructor
    · rintro ⟨parsed, bundle, hbundle, hparsed⟩
      obtain ⟨y, hy, hcomplete⟩ := convertIronwoodBundle_isOk_iff.mp ⟨parsed, hparsed⟩
      exact ⟨y, ⟨bundle, hbundle, hy⟩, hcomplete⟩
    · rintro ⟨y, ⟨bundle, hbundle, hy⟩, hcomplete⟩
      obtain ⟨parsed, hparsed⟩ := convertIronwoodBundle_isOk_iff.mpr ⟨y, hy, hcomplete⟩
      exact ⟨parsed, bundle, hbundle, hparsed⟩
  · exact ⟨fun _ ↦ ⟨none, rfl, nofun⟩, fun _ ↦ ⟨none, rfl⟩⟩

theorem convertTransparent_isOk_iff :
    (∃ parsed, convertTransparent V pczt = .ok parsed) ↔
      (∀ input ∈ V.inputs pczt, input.bip32Derivation.entries.length = 1) ∧
      ∀ output ∈ V.outputs pczt, output.bip32Derivation.entries.length ≤ 1 := by
  simp only [convertTransparent, bind_eq_ok, mapError_eq_ok, pure_eq_ok]
  constructor
  · rintro ⟨_, inputs, hinputs, outputs, houtputs, rfl⟩
    refine ⟨fun input hinput ↦ ?_, fun output houtput ↦ ?_⟩
    · obtain ⟨parsed, -, hparsed⟩ := exists_of_forall₂_left (mapM_eq_ok_iff.mp hinputs) hinput
      exact convertTransparentInput_isOk_iff.mp ⟨parsed, hparsed⟩
    · obtain ⟨parsed, -, hparsed⟩ := exists_of_forall₂_left (mapM_eq_ok_iff.mp houtputs) houtput
      exact convertTransparentOutput_isOk_iff.mp ⟨parsed, hparsed⟩
  · rintro ⟨hinputs, houtputs⟩
    obtain ⟨inputs, hi⟩ := exists_mapM_eq_ok fun input hinput ↦
      convertTransparentInput_isOk_iff.mpr (hinputs input hinput)
    obtain ⟨outputs, ho⟩ := exists_mapM_eq_ok fun output houtput ↦
      convertTransparentOutput_isOk_iff.mpr (houtputs output houtput)
    exact ⟨_, inputs, hi, outputs, ho, rfl⟩

/-- The stages of a parse that succeeds. -/
theorem parsePczt_eq_ok (hserde : U.Serializes) {parsed : ParsedPczt} :
    parsePczt V U bytes = .ok parsed ↔ ∃ pczt branch inputs outputs orchard ironwood,
      V.parse bytes = .ok pczt ∧ U.branchOfId (V.consensusBranchId pczt) = some branch ∧
      U.openTransparent pczt = .ok () ∧ convertTransparent V pczt = .ok (inputs, outputs) ∧
      parseOrchardBundle U pczt branch = .ok orchard ∧
      parseIronwoodBundle U pczt branch (U.header pczt).txVersion = .ok ironwood ∧
      parsed = ⟨globalOf V U pczt, inputs, outputs, orchard, ironwood⟩ := by
  simp only [parsePczt, bind_eq_ok, mapError_eq_ok, pure_eq_ok, okOr_eq_ok, parseGlobal_eq hserde,
    Except.ok.injEq]
  constructor
  · rintro ⟨pczt, hpczt, _, rfl, branch, hbranch, ⟨⟩, hopen, ⟨inputs, outputs⟩, htransparent,
      orchard, horchard, ironwood, hironwood, rfl⟩
    exact ⟨pczt, branch, inputs, outputs, orchard, ironwood, hpczt, hbranch, hopen, htransparent,
      horchard, hironwood, rfl⟩
  · rintro ⟨pczt, branch, inputs, outputs, orchard, ironwood, hpczt, hbranch, hopen, htransparent,
      horchard, hironwood, rfl⟩
    exact ⟨pczt, hpczt, _, rfl, branch, hbranch, (), hopen, (inputs, outputs), htransparent,
      orchard, horchard, ironwood, hironwood, rfl⟩

/-- A PCZT is accepted exactly when its bundles can be read on its branch and the device could
sign it. -/
theorem parsePczt_isOk_iff (hserde : U.Serializes) (bytes : List UInt8) :
    (∃ parsed, parsePczt V U bytes = .ok parsed) ↔
      ∃ pczt c, V.parse bytes = .ok pczt ∧ contents V U pczt = some c ∧ c.Signable := by
  simp only [parsePczt_eq_ok hserde, contents_eq_some]
  constructor
  · rintro ⟨_, pczt, branch, inputs, outputs, orchard, ironwood, hpczt, hbranch, hopen,
      htransparent, horchard, hironwood, rfl⟩
    obtain ⟨hinputs, houtputs⟩ := convertTransparent_isOk_iff.mp ⟨_, htransparent⟩
    obtain ⟨x, hx, hxall⟩ := parseOrchardBundle_isOk_iff.mp ⟨_, horchard⟩
    obtain ⟨y, hy, hyall⟩ := parseIronwoodBundle_isOk_iff.mp ⟨_, hironwood⟩
    exact ⟨pczt, _, hpczt, ⟨branch, x, y, hbranch, hopen, hx, hy, rfl⟩,
      ⟨hinputs, houtputs, hxall, hyall⟩⟩
  · rintro ⟨pczt, _, hpczt, ⟨branch, x, y, hbranch, hopen, hx, hy, rfl⟩,
      ⟨hinputs, houtputs, hxall, hyall⟩⟩
    obtain ⟨⟨inputs, outputs⟩, htransparent⟩ :=
      convertTransparent_isOk_iff.mpr ⟨hinputs, houtputs⟩
    obtain ⟨orchard, horchard⟩ := parseOrchardBundle_isOk_iff.mpr ⟨x, hx, hxall⟩
    obtain ⟨ironwood, hironwood⟩ := parseIronwoodBundle_isOk_iff.mpr ⟨y, hy, hyall⟩
    exact ⟨_, pczt, branch, inputs, outputs, orchard, ironwood, hpczt, hbranch, hopen,
      htransparent, horchard, hironwood, rfl⟩

theorem restore_parseOrchardBundle {parsed : Option ParsedOrchardBundle}
    (hranged : ∀ x, orchardContents U pczt branch = some x → ∀ b ∈ x, b.Ranged)
    (h : parseOrchardBundle U pczt branch = .ok parsed) :
    parsed.mapM ParsedOrchardBundle.restore = orchardContents U pczt branch := by
  obtain ⟨bundle, hbundle, h⟩ := bind_eq_ok.mp h
  have hcontents : orchardContents U pczt branch = shown U bundle branch .orchard := by
    rw [orchardContents, withBundle_eq_ok.mp hbundle]
    rfl
  have hconvert := mapError_eq_ok.mp h
  obtain ⟨x, hx, -⟩ := convertOrchardBundle_isOk_iff.mp ⟨_, hconvert⟩
  rw [hcontents] at hranged ⊢
  exact restore_convertOrchardBundle ((forall_actions_shown hx).mpr (hranged x hx)) hconvert

theorem restore_parseIronwoodBundle {parsed : Option ParsedIronwoodBundle}
    (hranged : ∀ y, ironwoodContents U pczt branch = some y → ∀ b ∈ y, b.1.Ranged)
    (h : parseIronwoodBundle U pczt branch (U.header pczt).txVersion = .ok parsed) :
    parsed.mapM ParsedIronwoodBundle.restore = ironwoodContents U pczt branch := by
  unfold parseIronwoodBundle at h
  unfold ironwoodContents at hranged ⊢
  split at h
  · rename_i hversion
    rw [if_pos hversion] at hranged ⊢
    obtain ⟨bundle, hbundle, h⟩ := bind_eq_ok.mp h
    have hconvert := mapError_eq_ok.mp h
    obtain ⟨y, hy, -⟩ := convertIronwoodBundle_isOk_iff.mp ⟨_, hconvert⟩
    rw [withBundle_eq_ok.mp hbundle] at hranged ⊢
    refine restore_convertIronwoodBundle ((forall_actions_shown (exists_shown hy)).mpr ?_) hconvert
    intro b hb
    obtain ⟨c, hc, rfl⟩ := Option.map_eq_some_iff.mp hb
    exact hranged y hy c hc
  · rename_i hversion
    rw [if_neg hversion]
    cases h
    rfl

/-- Nothing that the device is told is lost: it reads back as what the PCZT holds. -/
theorem restore_parsePczt (hserde : U.Serializes) {parsed : ParsedPczt}
    (h : parsePczt V U bytes = .ok parsed) : ∃ pczt, V.parse bytes = .ok pczt ∧
      ∃ c, contents V U pczt = some c ∧ (c.Ranged → parsed.restore = some c) := by
  obtain ⟨pczt', c, hpczt', hc, -⟩ := (parsePczt_isOk_iff hserde bytes).mp ⟨parsed, h⟩
  obtain ⟨pczt, branch, inputs, outputs, orchard, ironwood, hpczt, hbranch, hopen,
    htransparent, horchard, hironwood, rfl⟩ := (parsePczt_eq_ok hserde).mp h
  cases hpczt.symm.trans hpczt'
  refine ⟨_, hpczt, c, hc, fun hranged ↦ ?_⟩
  obtain ⟨branch', x, y, hbranch', -, hx, hy, rfl⟩ := contents_eq_some.mp hc
  cases hbranch.symm.trans hbranch'
  obtain ⟨_, hinputs, _, houtputs, heq⟩ := by
    simpa only [convertTransparent, bind_eq_ok, mapError_eq_ok, pure_eq_ok] using htransparent
  cases heq
  have hi := mapM_inverse (fun input hinput _ ↦
    restore_convertTransparentInput (hranged.inputs input hinput)) hinputs
  have ho := mapM_inverse (fun output houtput _ ↦
    restore_convertTransparentOutput (hranged.outputs output houtput)) houtputs
  have hb := restore_parseOrchardBundle
    (fun x' hx' ↦ by
      cases hx.symm.trans hx'
      exact hranged.orchard) horchard
  have hw := restore_parseIronwoodBundle
    (fun y' hy' ↦ by
      cases hy.symm.trans hy'
      exact hranged.ironwood) hironwood
  rw [ParsedPczt.restore]
  dsimp only
  rw [hi, ho, hb, hw, hx, hy]
  rfl

end Pczt

/-! ## The sample payment -/

/-- An action with every field, and the derivation of a recorded one. -/
def sampleAction (a : PcztAction) : OrchardAction where
  cvNet := fill 32 1
  spend :=
    { nullifier := fill 32 2, rk := fill 32 3, recipient := some (fill 43 4), value := some 0
      rho := some (fill 32 5), rseed := some (fill 32 6), alpha := some (fill 32 7)
      zip32Derivation := a.zip32Derivation }
  output :=
    { cmx := fill 32 8, epkBytes := fill 32 9, encCiphertext := [1, 2], outCiphertext := [3]
      recipient := some (fill 43 10), value := some 20000, rseed := some (fill 32 11) }
  rcv := some (fill 32 12)

theorem sample_pos (_ : Sign.negative = .negative) : 0 < 20000 := by decide

def sampleValueSum : ValueSum := ⟨20000, .negative, sample_pos⟩

/-- The reads of a recorded PCZT: V6 with an Ironwood action, else V5. -/
def recordParse : ParseUpstream recordTypes where
  BundleVersion := NoteVersion
  Flags := UInt8
  header p := ⟨if p.ironwood = [] then 5 else 6, 7, 50⟩
  hidden _ := ⟨none, 1, 3⟩
  globalJson _ := .ok fun key ↦
    if key = "coin_type" then some (.number 1)
    else if key = "tx_modifiable" then some (.number 3)
    else if key = "fallback_lock_time" then some .null
    else none
  branchOfId id := if id = 0 then some (some .nu6_3) else none
  openTransparent _ := .ok ()
  openBundle pool p := .ok
    { actions := (p.actions pool).map sampleAction, flags := 3
      valueSum := sampleValueSum, anchor := fill 32 13 }
  bundleVersionForBranch _ pool := some pool.noteVersion
  noteVersion := id
  toByte flags _ := some flags
  debugBranch _ := "Nu6_3"
  debugVersion _ := "BundleVersion"

theorem recordParse_serializes : recordParse.Serializes where
  coinType _ := Nat.one_lt_two_pow (by decide)
  fallbackLockTime _ := nofun
  json _ := ⟨_, rfl, rfl, rfl, rfl⟩

/-- What the sample payment holds when it is built for Ironwood. -/
def sampleContents : Contents where
  global := ⟨6, 7, 0, none, 50, 1, 3⟩
  inputs := recordView.inputs (sampleStamped .ironwood)
  outputs := recordView.outputs (sampleStamped .ironwood)
  orchard := none
  ironwood := some
    ({ actions := ((sampleStamped .ironwood).actions .ironwood).map sampleAction, flags := 3
       valueSum := sampleValueSum, anchor := fill 32 13 }, .v3)

theorem contents_sample :
    contents recordView recordParse (sampleStamped .ironwood) = some sampleContents := rfl

theorem parsePczt_isOk_sample : ∃ parsed, parsePczt recordView recordParse [2] = .ok parsed :=
  (parsePczt_isOk_iff recordParse_serializes [2]).mpr
    ⟨_, _, rfl, contents_sample, by decide⟩

end LedgerZcash.Parse
