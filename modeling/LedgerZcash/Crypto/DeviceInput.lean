import LedgerZcash.Crypto.ParsePczt

/-!
# What the device is told of a payment

From the builder to the device: the bytes of a build are parsed and flattened.  The upstream
builder fills every field that the device needs except the derivations (`Prepared`), and these
the crate stamps; so a build is never refused by the parser.  And the device is told the truth
about it (`Told`): the coin and the key of each transparent input, the recipients without a key,
at most one output of the wallet's own, which is the change, and the account's key for every
action (`build_told`).
-/

namespace LedgerZcash

open Hex Collect Parse

variable {Path : Type} {T : CraftTypes Path}

/-! ## What is told -/

/-- How a derivation is told. -/
def toldDerivation (pubkey : Arr 33) (d : Derivation) : ParsedBip32Derivation where
  signingPath := formatDerivationPath d.path
  pubkey := pubkey
  seedFingerprint := d.seedFingerprint

namespace Parse

/-- What an input is told to spend. -/
def inputCoin (input : ParsedTransparentInput) : Coin :=
  ⟨input.prevoutTxid, input.prevoutIndex, input.value⟩

/-- To which script an output is told to pay how much. -/
def outputPays (output : ParsedTransparentOutput) : List UInt8 × Nat :=
  (output.scriptPubkey, output.value)

end Parse

namespace BuildInputs

variable (i : BuildInputs T)

/-- The wallet's own output: none without a surplus for it, else the change with its key. -/
inductive TellsOwn (V : PcztView T) (change : Nat) : List ParsedTransparentOutput → Prop
  | none (h : change = 0 ∨ i.spends ≠ []) : TellsOwn V change []
  | change {output : ParsedTransparentOutput} {addr : T.TransparentAddress} {pubkey : Arr 33}
      {addressIndex : Nat} (hpos : 0 < change)
      (haddr : i.transparentChangeAddress = some addr)
      (hpubkey : i.transparentChangePubkey = some pubkey)
      (haddressIndex : i.transparentChangeAddressIndex = some addressIndex)
      (hpays : outputPays output = (V.script addr, change))
      (hderivation : output.derivation = some (toldDerivation pubkey
        (i.transparentKey transparentInternalScope addressIndex))) :
      TellsOwn V change [output]

/-- What the device is told of a request, for a surplus. -/
structure Told (V : PcztView T) (pool : Pool) (change : Nat) (parsed : ParsedPczt) : Prop where
  balance : i.inputValues.sum = ((i.requested pool).map Payment.value).sum + change + i.fee
  inputs : List.Forall₂ (fun tin input ↦ inputCoin input = tin.coin ∧
    input.derivation = toldDerivation tin.pubkey
      (i.transparentKey tin.derivationScope tin.derivationAddressIndex))
    i.transparentInputs parsed.transparentInputs
  outputs : ∃ recipients own, parsed.transparentOutputs = recipients ++ own ∧
    recipients.map outputPays = (i.requested pool).filterMap (Payment.script V) ∧
    (∀ o ∈ recipients, o.derivation = none) ∧ i.TellsOwn V change own
  orchard : ∀ b ∈ parsed.orchardBundle, ∀ a ∈ b.actions, a.Tells i.spendKey
  ironwood : ∀ b ∈ parsed.ironwoodBundle, ∀ a ∈ b.actions, a.action.Tells i.spendKey

end BuildInputs

/-! ## What the upstream builder leaves to the crate -/

/-- The action with a derivation of its spend. -/
def Parse.OrchardAction.setDerivation (a : OrchardAction) (d : Derivation) : OrchardAction :=
  { a with spend := { a.spend with zip32Derivation := some d } }

/-- Every field is there, the derivation of the spend apart. -/
def Parse.OrchardAction.Filled (a : OrchardAction) : Prop :=
  ∀ d, (a.setDerivation d).missing = []

/-- A bundle is read as it was built, and its flags fit the version of the branch. -/
structure PreparedBundle (V : PcztView T) (U : ParseUpstream T) (pczt : T.Pczt)
    (branch : Option NetworkUpgrade) (pool : Pool) (bundle : OrchardBundle U.Flags) : Prop where
  filled : ∀ a ∈ bundle.actions, a.Filled
  derivations : bundle.actions.map (fun a ↦ a.spend.zip32Derivation) = V.zip32Derivations pool pczt
  flags : bundle.actions ≠ [] → ∃ version, U.bundleVersionForBranch branch pool = some version ∧
    (U.toByte bundle.flags version).isSome = true

/-- What a PCZT of the upstream builder has without the crate. -/
structure Prepared (V : PcztView T) (U : ParseUpstream T) (pczt : T.Pczt) : Prop where
  transparent : U.openTransparent pczt = .ok ()
  bundles : ∃ branch, U.branchOfId (V.consensusBranchId pczt) = some branch ∧
    (∃ bundle, U.openBundle .orchard pczt = .ok bundle ∧
      PreparedBundle V U pczt branch .orchard bundle) ∧
    (v6TxVersion ≤ (U.header pczt).txVersion → ∃ bundle, U.openBundle .ironwood pczt = .ok bundle ∧
      PreparedBundle V U pczt branch .ironwood bundle)

/-! ## Actions -/

/-- A filled action lacks nothing once it is stamped. -/
theorem missing_eq_nil {a : OrchardAction} (hfilled : a.Filled) {d : Derivation}
    (hd : a.spend.zip32Derivation = some d) : a.missing = [] := by
  have hsame : a.setDerivation d = a := by
    rw [OrchardAction.setDerivation, ← hd]
  rw [← hsame]
  exact hfilled d

/-- The key that an action is told is the one it was stamped with. -/
theorem tells_of_convert {a : OrchardAction} {parsed : ParsedOrchardAction}
    (h : convertOrchardAction a = .ok parsed) {d : Derivation}
    (hd : a.spend.zip32Derivation = some d) : parsed.Tells d := by
  obtain ⟨d', htells, rfl⟩ := convertOrchardAction_eq_ok h
  cases Option.some.inj hd
  exact htells

section Told

variable {V : PcztView T} {U : ParseUpstream T} {i : BuildInputs T} {pczt : T.Pczt}
  {branch : Option NetworkUpgrade} {pool : Pool} {change : Nat}

/-! ## A bundle -/

theorem stamped_of_mem {bundle : OrchardBundle U.Flags}
    (hbundle : PreparedBundle V U pczt branch pool bundle)
    (hstamps : ∀ a ∈ V.actions pool pczt, a.zip32Derivation = some i.spendKey)
    {a : OrchardAction} (ha : a ∈ bundle.actions) :
    a.spend.zip32Derivation = some i.spendKey := by
  have hmem : a.spend.zip32Derivation ∈ V.zip32Derivations pool pczt := by
    rw [← hbundle.derivations]
    exact List.mem_map_of_mem ha
  obtain ⟨x, hx, heq⟩ := List.mem_map.mp hmem
  rw [← heq]
  exact hstamps x hx

/-- A prepared and stamped bundle can be shown, and its actions can be signed. -/
theorem exists_shown_of_prepared {bundle : OrchardBundle U.Flags}
    (hbundle : PreparedBundle V U pczt branch pool bundle)
    (hstamps : ∀ a ∈ V.actions pool pczt, a.zip32Derivation = some i.spendKey) :
    ∃ x, shown U bundle branch pool = some x ∧ ∀ b ∈ x, b.Complete := by
  have hcomplete : bundle.Complete := fun a ha ↦
    missing_eq_nil (hbundle.filled a ha) (stamped_of_mem hbundle hstamps ha)
  by_cases hnil : bundle.actions = []
  · exact ⟨none, shown_of_nil hnil, nofun⟩
  · obtain ⟨version, hversion, hflags⟩ := hbundle.flags hnil
    obtain ⟨flags, hflags⟩ := Option.isSome_iff_exists.mp hflags
    have hshown := shown_eq_some.mpr ⟨hnil, version, flags, hversion, hflags, rfl⟩
    exact ⟨_, hshown, (forall_actions_shown hshown).mp hcomplete⟩

/-- Every action of the bundle is told the account's key. -/
theorem tells_of_convertBundle {bundle : OrchardBundle U.Flags}
    (hbundle : PreparedBundle V U pczt branch pool bundle)
    (hstamps : ∀ a ∈ V.actions pool pczt, a.zip32Derivation = some i.spendKey)
    {parsed : Option ParsedOrchardBundle}
    (h : convertOrchardBundle U bundle branch pool = .ok parsed) :
    ∀ b ∈ parsed, ∀ a ∈ b.actions, a.Tells i.spendKey := by
  rcases convertOrchardBundle_eq_ok.mp h with ⟨-, rfl⟩ |
    ⟨-, version, actions, flags, -, hactions, -, rfl⟩
  · nofun
  · rintro b ⟨⟩ a ha
    obtain ⟨action, haction, hconvert⟩ := exists_of_forall₂_right (mapM_eq_ok_iff.mp hactions) ha
    exact tells_of_convert hconvert (stamped_of_mem hbundle hstamps haction)

/-! ## The transparent items -/

/-- Each input is told its coin and its key. -/
theorem told_inputs {parsed : List ParsedTransparentInput}
    (hstamps : List.Forall₂ i.StampsInput i.transparentInputs (V.inputs pczt))
    (h : (V.inputs pczt).mapM convertTransparentInput = .ok parsed) :
    List.Forall₂ (fun tin input ↦ inputCoin input = tin.coin ∧
      input.derivation = toldDerivation tin.pubkey
        (i.transparentKey tin.derivationScope tin.derivationAddressIndex))
      i.transparentInputs parsed := by
  have hpairs := mapM_eq_ok_iff.mp h
  generalize V.inputs pczt = inputs at hstamps hpairs
  clear h
  generalize i.transparentInputs = tins at hstamps ⊢
  induction hstamps generalizing parsed with
  | nil =>
      cases hpairs
      exact .nil
  | @cons tin input tins inputs hstamp _ ih =>
      cases hpairs with
      | cons hconvert hrest =>
          refine .cons ?_ (ih hrest)
          rw [convertTransparentInput, hstamp.derivation, singleDerivation_singleton] at hconvert
          cases hconvert
          exact ⟨hstamp.coin, rfl⟩

/-- An output is told with its script, its value and its derivation, if it has any. -/
theorem convertOutput_empty {output : PcztOutput} {parsed : ParsedTransparentOutput}
    (hempty : output.bip32Derivation = ∅) (h : convertTransparentOutput output = .ok parsed) :
    outputPays parsed = output.pays ∧ parsed.derivation = none := by
  rw [convertTransparentOutput, hempty, singleDerivation_empty] at h
  cases h
  exact ⟨rfl, rfl⟩

theorem convertOutput_singleton {output : PcztOutput} {parsed : ParsedTransparentOutput}
    {pubkey : Arr 33} {d : Derivation}
    (hsingle : output.bip32Derivation = AList.singleton pubkey d)
    (h : convertTransparentOutput output = .ok parsed) :
    outputPays parsed = output.pays ∧ parsed.derivation = some (toldDerivation pubkey d) := by
  rw [convertTransparentOutput, hsingle, singleDerivation_singleton] at h
  cases h
  exact ⟨rfl, rfl⟩

/-- The recipients are told without a key, the change behind them with its own. -/
theorem told_outputs {parsed : List ParsedTransparentOutput}
    (hstamps : i.Stamps V pool change pczt)
    (h : (V.outputs pczt).mapM convertTransparentOutput = .ok parsed) :
    ∃ recipients own, parsed = recipients ++ own ∧
      recipients.map outputPays = (i.requested pool).filterMap (Payment.script V) ∧
      (∀ o ∈ recipients, o.derivation = none) ∧ i.TellsOwn V change own := by
  obtain ⟨recipients, own, houtputs, hpays, hempty, hown⟩ := hstamps.outputs
  rw [houtputs, List.mapM_append] at h
  obtain ⟨told, hrecipients, h⟩ := bind_eq_ok.mp h
  obtain ⟨toldOwn, hchange, h⟩ := bind_eq_ok.mp h
  cases pure_eq_ok.mp h
  have hmap : told.map outputPays = recipients.map PcztOutput.pays :=
    map_eq_map_of_mapM hrecipients fun o ho _ hconvert ↦
      (convertOutput_empty (hempty o ho) hconvert).1
  have htold : ∀ p ∈ told, p.derivation = none := by
    intro p hp
    obtain ⟨o, ho, hconvert⟩ := exists_of_forall₂_right (mapM_eq_ok_iff.mp hrecipients) hp
    exact (convertOutput_empty (hempty o ho) hconvert).2
  refine ⟨told, toldOwn, rfl, hmap.trans hpays, htold, ?_⟩
  have hpairs := mapM_eq_ok_iff.mp hchange
  cases hown with
  | none hnone =>
      cases hpairs
      exact .none hnone
  | change hpos _ haddr hpubkey haddressIndex hpays hderivation =>
      cases hpairs with
      | cons hconvert hrest =>
          cases hrest
          obtain ⟨hp, hd⟩ := convertOutput_singleton hderivation hconvert
          exact .change hpos haddr hpubkey haddressIndex (hp.trans hpays) hd

/-! ## The whole payment -/

/-- A prepared and stamped PCZT is parsed, and the device is told its request. -/
theorem told_of_stamps (hserde : U.Serializes) {bytes : List UInt8}
    (hparse : V.parse bytes = .ok pczt) (hprepared : Prepared V U pczt)
    (hstamps : i.Stamps V pool change pczt) :
    ∃ parsed, Parse.parsePczt V U bytes = .ok parsed ∧ i.Told V pool change parsed := by
  obtain ⟨branch, hbranch, ⟨orchard, horchard, hpreparedOrchard⟩, hironwood⟩ := hprepared.bundles
  obtain ⟨⟨inputs, outputs⟩, htransparent⟩ := hstamps.convertTransparent_ok
  obtain ⟨x, hx, hxall⟩ := exists_shown_of_prepared hpreparedOrchard (hstamps.actions .orchard)
  have hxcontents : orchardContents U pczt branch = some x := by
    rw [orchardContents, horchard]
    exact hx
  obtain ⟨parsedOrchard, hparsedOrchard⟩ :=
    parseOrchardBundle_isOk_iff.mpr ⟨x, hxcontents, hxall⟩
  obtain ⟨y, hy, hyall⟩ : ∃ y, ironwoodContents U pczt branch = some y ∧
      ∀ b ∈ y, b.1.Complete := by
    unfold ironwoodContents
    split
    · rename_i hversion
      obtain ⟨bundle, hbundle, hprepared⟩ := hironwood hversion
      obtain ⟨z, hz, hzall⟩ := exists_shown_of_prepared hprepared (hstamps.actions .ironwood)
      obtain ⟨y, hy, rfl⟩ := exists_shownIronwood hz
      refine ⟨y, ?_, fun b hb ↦ hzall b.1 (Option.mem_map_of_mem _ hb)⟩
      rw [hbundle]
      exact hy
    · exact ⟨none, rfl, fun b hb ↦ absurd hb (Option.not_mem_none b)⟩
  obtain ⟨parsedIronwood, hparsedIronwood⟩ := parseIronwoodBundle_isOk_iff.mpr ⟨y, hy, hyall⟩
  have hok := (parsePczt_eq_ok hserde).mpr ⟨pczt, branch, inputs, outputs, parsedOrchard,
    parsedIronwood, hparse, hbranch, hprepared.transparent, htransparent, hparsedOrchard,
    hparsedIronwood, rfl⟩
  refine ⟨_, hok, hstamps.balance, ?_, ?_, ?_, ?_⟩
  · obtain ⟨_, hinputs, h⟩ := bind_eq_ok.mp htransparent
    obtain ⟨_, -, h⟩ := bind_eq_ok.mp h
    cases pure_eq_ok.mp h
    exact told_inputs hstamps.inputs (mapError_eq_ok.mp hinputs)
  · obtain ⟨_, -, h⟩ := bind_eq_ok.mp htransparent
    obtain ⟨_, houtputs, h⟩ := bind_eq_ok.mp h
    cases pure_eq_ok.mp h
    exact told_outputs hstamps (mapError_eq_ok.mp houtputs)
  · obtain ⟨bundle, hbundle, h⟩ := bind_eq_ok.mp hparsedOrchard
    cases horchard.symm.trans (mapError_eq_ok.mp hbundle)
    exact tells_of_convertBundle hpreparedOrchard (hstamps.actions .orchard) (mapError_eq_ok.mp h)
  · unfold parseIronwoodBundle at hparsedIronwood
    split at hparsedIronwood
    · rename_i hversion
      obtain ⟨bundle, hbundle, h⟩ := bind_eq_ok.mp hparsedIronwood
      obtain ⟨bundle', hbundle', hprepared⟩ := hironwood hversion
      cases hbundle'.symm.trans (mapError_eq_ok.mp hbundle)
      rcases convertIronwoodBundle_eq_ok.mp (mapError_eq_ok.mp h) with ⟨-, rfl⟩ |
        ⟨b, version, hb, -, rfl⟩
      · rintro _ ⟨⟩
      · rintro _ ⟨⟩ a ha
        obtain ⟨action, haction, rfl⟩ := List.mem_map.mp ha
        exact tells_of_convertBundle hprepared (hstamps.actions .ironwood) hb b rfl action haction
    · cases hparsedIronwood
      rintro _ ⟨⟩

/-- What a builder returns is accepted for the device, and the device is told the request. -/
theorem told_of_build {P : CraftUpstream T} (L : PcztUpstream P V) (hserde : U.Serializes)
    {out : BuildOutput} (hlen : i.outputs.length < u32Size)
    (hprepared : ∀ pczt, V.parse out.pcztBytes = .ok pczt → Prepared V U pczt)
    (h : buildTransaction P i = .ok out) : ∃ parsed change,
      Parse.parsePczt V U out.pcztBytes = .ok parsed ∧ i.Told V .orchard change parsed := by
  obtain ⟨plan, hplan, h⟩ := bind_eq_ok.mp h
  obtain ⟨pczt, hparse, hstamps⟩ := finish_stamps L hlen (planTransaction_holds hplan) h id
  obtain ⟨parsed, hok, htold⟩ := told_of_stamps hserde hparse (hprepared pczt hparse) hstamps
  exact ⟨parsed, _, hok, htold⟩

theorem told_of_buildIronwood {P : CraftUpstream T} (L : PcztUpstream P V) (hserde : U.Serializes)
    {out : BuildOutput} (hlen : i.outputs.length < u32Size)
    (hprepared : ∀ pczt, V.parse out.pcztBytes = .ok pczt → Prepared V U pczt)
    (h : buildIronwoodTransaction P i = .ok out) : ∃ parsed change,
      Parse.parsePczt V U out.pcztBytes = .ok parsed ∧ i.Told V .ironwood change parsed := by
  obtain ⟨plan, hplan, h⟩ := bind_eq_ok.mp h
  obtain ⟨pczt, hparse, hstamps⟩ :=
    finish_stamps L hlen (planIronwoodTransaction_holds hplan) h (nomatch ·)
  obtain ⟨parsed, hok, htold⟩ := told_of_stamps hserde hparse (hprepared pczt hparse) hstamps
  exact ⟨parsed, _, hok, htold⟩

end Told

/-- Both builders, whatever the request. -/
theorem build_told {P : CraftUpstream T} {V : PcztView T} {U : ParseUpstream T}
    (L : PcztUpstream P V) (hserde : U.Serializes) (i : BuildInputs T) (out : BuildOutput)
    (hlen : i.outputs.length < u32Size)
    (hprepared : ∀ pczt, V.parse out.pcztBytes = .ok pczt → Prepared V U pczt) :
    (buildTransaction P i = .ok out → ∃ parsed change,
      Parse.parsePczt V U out.pcztBytes = .ok parsed ∧ i.Told V .orchard change parsed) ∧
    (buildIronwoodTransaction P i = .ok out → ∃ parsed change,
      Parse.parsePczt V U out.pcztBytes = .ok parsed ∧ i.Told V .ironwood change parsed) :=
  ⟨told_of_build L hserde hlen hprepared, told_of_buildIronwood L hserde hlen hprepared⟩

theorem recordParse_preparedBundle (pczt : PcztRecord) (branch : Option NetworkUpgrade)
    (pool : Pool) : ∃ bundle, recordParse.openBundle pool pczt = .ok bundle ∧
      PreparedBundle recordView recordParse pczt branch pool bundle := by
  refine ⟨_, rfl, fun a ha ↦ ?_, ?_, fun _ ↦ ⟨_, rfl, rfl⟩⟩
  · obtain ⟨x, -, rfl⟩ := List.mem_map.mp ha
    intro d
    rfl
  · exact List.map_map

theorem recordParse_prepared (pczt : PcztRecord) : Prepared recordView recordParse pczt where
  transparent := rfl
  bundles := ⟨some .nu6_3, rfl, recordParse_preparedBundle pczt _ .orchard,
    fun _ ↦ recordParse_preparedBundle pczt _ .ironwood⟩

theorem build_told_sample :
    (∃ parsed change, Parse.parsePczt recordView recordParse [1] = .ok parsed ∧
      samplePublicPayment.Told recordView .orchard change parsed) ∧
    (∃ parsed change, Parse.parsePczt recordView recordParse [2] = .ok parsed ∧
      samplePublicPayment.Told recordView .ironwood change parsed) :=
  ⟨(build_told recording_pcztUpstream recordParse_serializes samplePublicPayment
      ⟨[1], 4000, 1, 2, 1, 2, 0⟩ (by decide) fun pczt _ ↦ recordParse_prepared pczt).1
      (by decide +kernel),
    (build_told recording_pcztUpstream recordParse_serializes samplePublicPayment
      ⟨[2], 4000, 1, 0, 1, 2, 2⟩ (by decide) fun pczt _ ↦ recordParse_prepared pczt).2
      (by decide +kernel)⟩

end LedgerZcash
