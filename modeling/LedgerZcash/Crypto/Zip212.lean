import LedgerZcash.Crypto.TrialDecrypt

/-!
# The ZIP-212 rule

Which Sapling note plaintext versions are accepted at a height is decided twice: by the
table of `zip212Enforcement` for trial decryption, and by the consensus rule inside the
upstream `decrypt_transaction` for full decryption.  The two agree on testnet.  On mainnet
the table starts at 903,800 where Canopy is 1,046,400, so that between the ends of the two
grace periods a note of the old version is decrypted by one and missed by the other.
-/

namespace LedgerZcash

open Hex Collect

/-! ## The rule from a height on -/

section Rule

variable {a a' height : Nat}

/-- `ZIP212_GRACE_PERIOD`. -/
def gracePeriod : Nat := 32256

/-- The rule of a network on which ZIP-212 activates at a height. -/
def ruleFrom (activation height : Nat) : Zip212Enforcement :=
  if activation ≤ height then
    if height < activation + gracePeriod then .gracePeriod else .on
  else .off

/-- `plaintext_version_is_valid`: the lead bytes that a rule accepts. -/
def Zip212Enforcement.accepts : Zip212Enforcement → UInt8 → Bool
  | .off, leadByte => leadByte = 1
  | .gracePeriod, leadByte => leadByte = 1 ∨ leadByte = 2
  | .on, leadByte => leadByte = 2

/-- The old version until the grace period ends, the new one from activation on. -/
theorem accepts_ruleFrom {leadByte : UInt8} : (ruleFrom a height).accepts leadByte = true ↔
    leadByte = 1 ∧ height < a + gracePeriod ∨ leadByte = 2 ∧ a ≤ height := by
  unfold ruleFrom
  split
  · rename_i ha
    split
    · rename_i hg
      simp [Zip212Enforcement.accepts, ha, hg]
    · rename_i hg
      simp [Zip212Enforcement.accepts, ha, hg]
  · rename_i ha
    have hg : height < a + gracePeriod := by omega
    simp [Zip212Enforcement.accepts, ha, hg]

/-- Two activation heights give one rule below the first and after both grace periods. -/
theorem ruleFrom_eq_iff (h : a + gracePeriod ≤ a') :
    ruleFrom a height = ruleFrom a' height ↔ height < a ∨ a' + gracePeriod ≤ height := by
  have hg : 0 < gracePeriod := by decide
  unfold ruleFrom
  split_ifs <;> simp <;> omega

end Rule

/-- The activation height of Canopy. -/
def canopy : Network → Nat
  | .mainNetwork => 1046400
  | .testNetwork => 1028500

/-- The consensus rule that `decrypt_transaction` uses. -/
def consensusRule (network : Network) (height : Nat) : Zip212Enforcement :=
  ruleFrom (canopy network) height

theorem zip212Enforcement_eq (network : Network) (height : Nat) :
    zip212Enforcement network height = ruleFrom (heartwood network) height := rfl

theorem heartwood_le_canopy (network : Network) : heartwood network ≤ canopy network := by
  cases network <;> decide

/-- The heights from the end of the table's grace period to the end of Canopy's. -/
def InWindow (network : Network) (height : Nat) : Prop :=
  heartwood network + gracePeriod ≤ height ∧ height < canopy network + gracePeriod

theorem inWindow_iff {network : Network} {height : Nat} :
    InWindow network height ↔ network = .mainNetwork ∧ 936056 ≤ height ∧ height < 1078656 := by
  cases network <;> simp [InWindow, heartwood, canopy, gracePeriod]

/-- The table is the consensus rule on testnet, below 903,800 and from 1,078,656 on. -/
theorem zip212Enforcement_eq_consensusRule_iff {network : Network} {height : Nat} :
    zip212Enforcement network height = consensusRule network height ↔
      network = .testNetwork ∨ height < 903800 ∨ 1078656 ≤ height := by
  rw [zip212Enforcement_eq, consensusRule]
  cases network with
  | mainNetwork =>
      rw [ruleFrom_eq_iff (by decide)]
      simp [heartwood, canopy, gracePeriod]
  | testNetwork => simp [heartwood, canopy]

/-! ## Sapling outputs, whole and compact -/

/-- An output of a Sapling bundle. -/
structure OutputDescription where
  cmu : Bytes32
  ephemeralKey : Bytes32
  encCiphertext : Arr 580
deriving DecidableEq

namespace OutputDescription

/-- The first bytes of the ciphertext hold the note plaintext without the memo. -/
def compactCiphertext (o : OutputDescription) : Arr compactNoteSize :=
  ⟨o.encCiphertext.1.take compactNoteSize, by simp [o.encCiphertext.2, compactNoteSize]⟩

def description (o : OutputDescription) : CompactOutputDescription :=
  ⟨o.cmu, o.ephemeralKey, o.compactCiphertext⟩

/-- The output as a compact block carries it. -/
def compact (o : OutputDescription) : CompactSaplingOutput :=
  ⟨o.cmu.1, o.ephemeralKey.1, o.compactCiphertext.1⟩

theorem parse_compact {U : NoteCrypto} {o : OutputDescription} (h : U.validCmu o.cmu = true) :
    parseCompactSaplingOutput U o.compact = .ok o.description := by
  simp only [parseCompactSaplingOutput, compact, parseField, Arr.tryFrom_val, bind, Except.bind, h,
    if_true, pure, Except.pure, description]

end OutputDescription

/-- What upstream documents of Sapling decryption.  A key turns the compact ciphertext into
a note plaintext, whose lead byte the rule has to accept; the rest does not depend on the
rule.  Full decryption in addition authenticates the whole ciphertext. -/
structure SaplingDecryption (U : NoteCrypto) where
  outputs : U.Transaction → List OutputDescription
  /-- The version of the note plaintext. -/
  leadByte : U.SaplingIvk → CompactOutputDescription → UInt8
  /-- The rest of the note plaintext is a note that opens the commitment. -/
  opens : U.SaplingIvk → CompactOutputDescription → Prop
  authentic : U.SaplingIvk → OutputDescription → Prop
  /-- Parsing a transaction checks the commitments. -/
  valid : ∀ tx, ∀ o ∈ outputs tx, U.validCmu o.cmu = true
  compact_iff : ∀ ivks rule d, (U.saplingBatch.single ivks (rule, d)).isSome ↔
    ∃ ivk ∈ ivks, rule.accepts (leadByte ivk d) = true ∧ opens ivk d
  full_iff : ∀ network height tx ufvk,
    (∃ f ∈ (U.decryptTransaction network height tx ufvk).saplingOutputs,
      f.transferType ≠ .outgoing) ↔
    ∃ toIvk ∈ U.saplingIvk ufvk, ∃ scope, ∃ o ∈ outputs tx,
      (consensusRule network height).accepts (leadByte (toIvk scope) o.description) = true ∧
        opens (toIvk scope) o.description ∧ authentic (toIvk scope) o

section Sapling

variable {U : NoteCrypto} (D : SaplingDecryption U)

/-- Some output opens under one of the account's keys to a note of the version. -/
def SaplingDecryption.Opens (ufvk : U.Ufvk) (tx : U.Transaction) (version : UInt8) : Prop :=
  ∃ toIvk ∈ U.saplingIvk ufvk, ∃ scope, ∃ o ∈ D.outputs tx,
    D.leadByte (toIvk scope) o.description = version ∧ D.opens (toIvk scope) o.description

/-- Some output pays the account a note of the version. -/
def SaplingDecryption.Pays (ufvk : U.Ufvk) (tx : U.Transaction) (version : UInt8) : Prop :=
  ∃ toIvk ∈ U.saplingIvk ufvk, ∃ scope, ∃ o ∈ D.outputs tx,
    D.leadByte (toIvk scope) o.description = version ∧ D.opens (toIvk scope) o.description ∧
      D.authentic (toIvk scope) o

/-- The compact transaction lists the Sapling outputs of the transaction. -/
def SaplingDecryption.IsCompact (tx : U.Transaction) (ctx : CompactTransaction) : Prop :=
  ctx.saplingOutputs = (D.outputs tx).map OutputDescription.compact

/-- `fullDecryptTxWithUfvk` finds an incoming or internal Sapling output. -/
def FullDecryptsSapling (U : NoteCrypto) (network : Network) (height : Nat) (raw : List UInt8)
    (ufvk : U.Ufvk) : Prop :=
  ∃ d, fullDecryptTxWithUfvk U (Hex.encode raw) ufvk height network = .ok d ∧
    ∃ o ∈ d.saplingOutputs, o.transferType ≠ .outgoing

variable {D} {network : Network} {height : Nat} {raw : List UInt8} {tx : U.Transaction}
  {ufvk : U.Ufvk} {ctx : CompactTransaction}

theorem decodeTransferType_eq_outgoing {t : UpstreamTransferType} :
    decodeTransferType t = .outgoing ↔ t = .outgoing := by
  cases t <;> simp [decodeTransferType]

theorem fullDecryptsSapling_iff (hread : U.readTransaction network height raw = .ok tx) :
    FullDecryptsSapling U network height raw ufvk ↔
      ∃ f ∈ (U.decryptTransaction network height tx ufvk).saplingOutputs,
        f.transferType ≠ .outgoing := by
  have hfull : ∃ d, fullDecryptTxWithUfvk U (Hex.encode raw) ufvk height network = .ok d ∧
      d.saplingOutputs =
        (U.decryptTransaction network height tx ufvk).saplingOutputs.map mapSaplingOutput := by
    simp only [fullDecryptTxWithUfvk, decode_encode, hread, Except.mapError, bind, Except.bind,
      pure, Except.pure, Except.ok.injEq, exists_eq_left']
  obtain ⟨d, hd, houts⟩ := hfull
  simp only [FullDecryptsSapling, hd, Except.ok.injEq, exists_eq_left', houts, List.mem_map,
    exists_exists_and_eq_and, mapSaplingOutput, ne_eq, decodeTransferType_eq_outgoing]

/-- Full decryption accepts the old version until Canopy's grace period ends, and the new
one from Canopy on. -/
theorem fullDecryptsSapling_iff_pays (D : SaplingDecryption U)
    (hread : U.readTransaction network height raw = .ok tx) :
    FullDecryptsSapling U network height raw ufvk ↔
      (D.Pays ufvk tx 1 ∧ height < canopy network + gracePeriod) ∨
        (D.Pays ufvk tx 2 ∧ canopy network ≤ height) := by
  rw [fullDecryptsSapling_iff hread, D.full_iff]
  simp only [consensusRule, accepts_ruleFrom]
  constructor
  · rintro ⟨toIvk, ht, scope, o, ho, ⟨hb, hh⟩ | ⟨hb, hh⟩, hopen⟩
    · exact Or.inl ⟨⟨toIvk, ht, scope, o, ho, hb, hopen⟩, hh⟩
    · exact Or.inr ⟨⟨toIvk, ht, scope, o, ho, hb, hopen⟩, hh⟩
  · rintro (⟨⟨toIvk, ht, scope, o, ho, hb, hopen⟩, hh⟩ | ⟨⟨toIvk, ht, scope, o, ho, hb, hopen⟩, hh⟩)
    · exact ⟨toIvk, ht, scope, o, ho, Or.inl ⟨hb, hh⟩, hopen⟩
    · exact ⟨toIvk, ht, scope, o, ho, Or.inr ⟨hb, hh⟩, hopen⟩

/-- The scanner's keys are the account's two, if it has any. -/
theorem mem_prepareIvksOf {ivk : U.SaplingIvk} :
    ivk ∈ (prepareIvksOf U ufvk).sapling.map Prod.fst ↔
      ∃ toIvk ∈ U.saplingIvk ufvk, ∃ scope, ivk = toIvk scope := by
  cases h : U.saplingIvk ufvk with
  | none => simp [prepareIvksOf, h]
  | some toIvk =>
      have hscope : (∃ scope, ivk = toIvk scope) ↔
          ivk = toIvk .external ∨ ivk = toIvk .internal :=
        ⟨fun ⟨scope, h⟩ ↦ by cases scope <;> simp [h], fun h ↦ h.elim (⟨_, ·⟩) (⟨_, ·⟩)⟩
      simp [prepareIvksOf, h, hscope]

/-- Trial decryption accepts each version by the heights of the table. -/
theorem saplingHits_iff_opens (hc : D.IsCompact tx ctx) :
    saplingHits U (prepareIvksOf U ufvk) (zip212Enforcement network height) ctx = true ↔
      (D.Opens ufvk tx 1 ∧ height < heartwood network + gracePeriod) ∨
        (D.Opens ufvk tx 2 ∧ heartwood network ≤ height) := by
  have hparse : ∀ o ∈ D.outputs tx,
      parseCompactSaplingOutput U o.compact = .ok o.description := fun o ho ↦
    OutputDescription.parse_compact (D.valid tx o ho)
  rw [saplingHits, hits_eq_true, hc]
  simp only [D.compact_iff, mem_prepareIvksOf, zip212Enforcement_eq, accepts_ruleFrom]
  simp only [List.mem_map, exists_exists_and_eq_and]
  constructor
  · rintro ⟨o, ho, d, hd, _, ⟨toIvk, ht, scope, rfl⟩, hacc, hopen⟩
    obtain rfl := Except.ok.inj ((hparse o ho).symm.trans hd)
    rcases hacc with ⟨hb, hh⟩ | ⟨hb, hh⟩
    · exact Or.inl ⟨⟨toIvk, ht, scope, o, ho, hb, hopen⟩, hh⟩
    · exact Or.inr ⟨⟨toIvk, ht, scope, o, ho, hb, hopen⟩, hh⟩
  · rintro (⟨⟨toIvk, ht, scope, o, ho, hb, hopen⟩, hh⟩ | ⟨⟨toIvk, ht, scope, o, ho, hb, hopen⟩, hh⟩)
    · exact ⟨o, ho, _, hparse o ho, _, ⟨toIvk, ht, scope, rfl⟩, Or.inl ⟨hb, hh⟩, hopen⟩
    · exact ⟨o, ho, _, hparse o ho, _, ⟨toIvk, ht, scope, rfl⟩, Or.inr ⟨hb, hh⟩, hopen⟩

theorem SaplingDecryption.Pays.opens {version : UInt8} (h : D.Pays ufvk tx version) :
    D.Opens ufvk tx version := by
  obtain ⟨toIvk, ht, scope, o, ho, hb, hopen, -⟩ := h
  exact ⟨toIvk, ht, scope, o, ho, hb, hopen⟩

/-! ## The two decryptions side by side -/

/-- A compact transaction matches in the Orchard or the Ironwood pool. -/
def OrchardFamilyHits (U : NoteCrypto) (ufvk : U.Ufvk) (ctx : CompactTransaction) : Prop :=
  orchardHits U (prepareIvksOf U ufvk) ctx = true ∨ ironwoodHits U (prepareIvksOf U ufvk) ctx = true

theorem mem_trialDecryptBlock_singleton (threads : Nat) (hc : D.IsCompact tx ctx) :
    ctx.txid ∈ trialDecryptBlock U threads [ctx] (prepareIvksOf U ufvk) height network ↔
      ((D.Opens ufvk tx 1 ∧ height < heartwood network + gracePeriod) ∨
        (D.Opens ufvk tx 2 ∧ heartwood network ≤ height)) ∨ OrchardFamilyHits U ufvk ctx := by
  rw [trialDecryptBlock_eq, ← saplingHits_iff_opens hc, OrchardFamilyHits, ← or_assoc]
  simp [trialMatches]

/-- A mainnet transaction between the two grace periods' ends that pays the account notes of
the old version only, and that matches in no other pool. -/
def Missed (D : SaplingDecryption U) (network : Network) (height : Nat) (ufvk : U.Ufvk)
    (tx : U.Transaction) (ctx : CompactTransaction) : Prop :=
  InWindow network height ∧ D.Pays ufvk tx 1 ∧ ¬ D.Opens ufvk tx 2 ∧ ¬ OrchardFamilyHits U ufvk ctx

/-- Trial decryption of the compact form reports what full decryption finds, except for the
missed transactions. -/
theorem trial_of_full_iff (threads : Nat) (hread : U.readTransaction network height raw = .ok tx)
    (hc : D.IsCompact tx ctx) :
    (FullDecryptsSapling U network height raw ufvk →
      ctx.txid ∈ trialDecryptBlock U threads [ctx] (prepareIvksOf U ufvk) height network) ↔
    ¬ Missed D network height ufvk tx ctx := by
  have hle := heartwood_le_canopy network
  rw [fullDecryptsSapling_iff_pays D hread, mem_trialDecryptBlock_singleton threads hc]
  constructor
  · rintro h ⟨⟨hlo, hhi⟩, hpays, hnot, hfam⟩
    rcases h (Or.inl ⟨hpays, hhi⟩) with (⟨-, hlt⟩ | ⟨hopen, -⟩) | hfam'
    · exact absurd hlt (Nat.not_lt.mpr hlo)
    · exact hnot hopen
    · exact hfam hfam'
  · rintro h (⟨hpays, hlt⟩ | ⟨hpays, hge⟩)
    · rcases Nat.lt_or_ge height (heartwood network + gracePeriod) with hlo | hlo
      · exact Or.inl (Or.inl ⟨hpays.opens, hlo⟩)
      · by_contra hnone
        refine h ⟨⟨hlo, hlt⟩, hpays, fun hopen ↦ hnone ?_, fun hfam ↦ hnone (Or.inr hfam)⟩
        exact Or.inl (Or.inr ⟨hopen, by omega⟩)
    · exact Or.inl (Or.inr ⟨hpays.opens, hle.trans hge⟩)

end Sapling

/-- The scanner applies the consensus rule exactly outside mainnet's heights 903,800 to
1,078,655, and loses a note exactly where the old version is still valid and its table says
otherwise. -/
theorem zip212_exact {U : NoteCrypto} (D : SaplingDecryption U) :
    (∀ network height, zip212Enforcement network height = consensusRule network height ↔
      network = .testNetwork ∨ height < 903800 ∨ 1078656 ≤ height) ∧
    ∀ threads network height raw tx ufvk ctx,
      U.readTransaction network height raw = .ok tx → D.IsCompact tx ctx →
      ((FullDecryptsSapling U network height raw ufvk →
        ctx.txid ∈ trialDecryptBlock U threads [ctx] (prepareIvksOf U ufvk) height network) ↔
      ¬ (network = .mainNetwork ∧ 936056 ≤ height ∧ height < 1078656 ∧ D.Pays ufvk tx 1 ∧
        ¬ D.Opens ufvk tx 2 ∧ ¬ OrchardFamilyHits U ufvk ctx)) := by
  refine ⟨fun _ _ ↦ zip212Enforcement_eq_consensusRule_iff, ?_⟩
  intro threads network height raw tx ufvk ctx hread hc
  rw [trial_of_full_iff threads hread hc, Missed, inWindow_iff, and_assoc, and_assoc]

/-! ## One missed note -/

section Sample

/-- Every output is to the account, if it has a key at all. -/
def sampleSingle (ivks : List Unit) (x : Zip212Enforcement × CompactOutputDescription) :
    Option Nat :=
  if ivks ≠ [] ∧ x.1.accepts (x.2.encCiphertext.1.headD 0) = true then some 0 else none

/-- A transaction is a list of bytes, one a Sapling output to the account: the byte is the
version of its note. -/
def sampleSapling : NoteCrypto where
  Ufvk := Unit
  SaplingIvk := Unit
  OrchardFvk := Unit
  OrchardIvk := Scope
  Transaction := List UInt8
  decodeUfvk _ := .ok ()
  saplingIvk _ := some fun _ ↦ ()
  orchard _ := none
  orchardIvk _ scope := scope
  validCmu _ := true
  validCmx _ := true
  validNullifier _ := true
  saplingBatch := ⟨sampleSingle, fun ivks outs ↦ outs.map (sampleSingle ivks), fun _ _ ↦ rfl⟩
  orchardBatch := ⟨fun _ _ ↦ none, fun _ outs ↦ outs.map fun _ ↦ none, fun _ _ ↦ rfl⟩
  ironwoodBatch := ⟨fun _ _ ↦ none, fun _ outs ↦ outs.map fun _ ↦ none, fun _ _ ↦ rfl⟩
  readTransaction _ _ raw := .ok raw
  decryptTransaction network height raw _ :=
    { saplingOutputs := (raw.filter (consensusRule network height).accepts).map fun _ ↦
        ⟨5, fill 43 0, [], .incoming, .sapling⟩
      orchardOutputs := []
      ironwoodOutputs := [] }
  nullifier note _ := note.rho
  transparentBundle _ := none
  feePaid _ := none

def sampleOutput (version : UInt8) : OutputDescription := ⟨fill 32 0, fill 32 0, fill 580 version⟩

def sampleDecryption : SaplingDecryption sampleSapling where
  outputs raw := raw.map sampleOutput
  leadByte _ d := d.encCiphertext.1.headD 0
  opens _ _ := True
  authentic _ _ := True
  valid _ _ _ := rfl
  compact_iff := fun (ivks : List Unit) rule d ↦ by
    show (sampleSingle ivks (rule, d)).isSome = true ↔ _
    rcases ivks with - | ⟨⟨⟩, ivks⟩
    · exact ⟨fun h ↦ absurd h (by simp [sampleSingle]), fun ⟨_, h, _⟩ ↦ absurd h List.not_mem_nil⟩
    · refine ⟨fun h ↦ ⟨(), List.mem_cons_self, ?_, trivial⟩, fun ⟨_, _, hacc, _⟩ ↦ ?_⟩
      · simpa [sampleSingle] using h
      · simpa [sampleSingle] using hacc
  full_iff network height raw _ := by
    constructor
    · rintro ⟨f, hf, -⟩
      obtain ⟨version, hversion, -⟩ := List.mem_map.mp hf
      obtain ⟨hmem, hacc⟩ := List.mem_filter.mp hversion
      exact ⟨_, rfl, .external, sampleOutput version, List.mem_map_of_mem hmem, hacc, trivial,
        trivial⟩
    · rintro ⟨_, -, -, _, ho, hacc, -⟩
      obtain ⟨version, hmem, rfl⟩ := List.mem_map.mp ho
      refine ⟨_, List.mem_map_of_mem (List.mem_filter.mpr ⟨hmem, hacc⟩), by decide⟩

def sampleCompact (raw : List UInt8) : CompactTransaction :=
  ⟨"00", raw.map fun version ↦ (sampleOutput version).compact, [], []⟩

theorem sampleCompact_isCompact (raw : List UInt8) :
    sampleDecryption.IsCompact raw (sampleCompact raw) := by
  simp [SaplingDecryption.IsCompact, sampleCompact, sampleDecryption]

/-- At mainnet height 1,000,000 a note of the old version is decrypted in full, and trial
decryption does not report its transaction. -/
theorem trial_misses_note :
    zip212Enforcement .mainNetwork 1000000 ≠ consensusRule .mainNetwork 1000000 ∧
    sampleDecryption.IsCompact [1] (sampleCompact [1]) ∧
    FullDecryptsSapling sampleSapling .mainNetwork 1000000 [1] () ∧
    trialDecryptBlock sampleSapling 1 [sampleCompact [1]] (prepareIvksOf sampleSapling ())
      1000000 .mainNetwork = [] := by
  refine ⟨by decide, sampleCompact_isCompact _, ?_, by decide +kernel⟩
  have hread : sampleSapling.readTransaction .mainNetwork 1000000 [1] = .ok [1] := rfl
  exact (fullDecryptsSapling_iff hread).mpr
    ⟨⟨5, fill 43 0, [], .incoming, .sapling⟩, by decide +kernel⟩

/-- At height 900,000 the same note is found by both. -/
theorem zip212_exact_sample :
    zip212Enforcement .mainNetwork 900000 = consensusRule .mainNetwork 900000 ∧
    (FullDecryptsSapling sampleSapling .mainNetwork 900000 [1] () →
      "00" ∈ trialDecryptBlock sampleSapling 1 [sampleCompact [1]] (prepareIvksOf sampleSapling ())
        900000 .mainNetwork) := by
  obtain ⟨hrule, hnote⟩ := zip212_exact sampleDecryption
  refine ⟨(hrule _ _).mpr (by decide), ?_⟩
  refine (hnote 1 .mainNetwork 900000 [1] [1] () (sampleCompact [1]) rfl
    (sampleCompact_isCompact _)).mpr ?_
  rintro ⟨-, hlo, -⟩
  exact absurd hlo (by decide)

end Sample

end LedgerZcash
