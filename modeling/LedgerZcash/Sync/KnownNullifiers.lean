import LedgerZcash.Sync.Coverage

/-!
# Malformed known nullifiers

An entry of the known list that is no hexadecimal text is skipped with a warning, and the
warning quotes the entry up to byte 16.  The quote panics inside a character; hexadecimal text
has none that is longer than a byte.  So a scan that gets as far as the known list panics when
some entry has a character across byte 16.  Otherwise the list counts as the set of its 32-byte
values, for the spends as for the report (`knownHandled_iff`).
-/

namespace LedgerZcash

open Hex Collect

/-! ## The quote of a warning -/

/-- The first 16 bytes of an entry, or the whole of a shorter one, do not end inside a
character. -/
def QuoteFits (h : String) : Prop := isCharBoundary h.toList (min h.utf8ByteSize 16) = true

instance (h : String) : Decidable (QuoteFits h) := inferInstanceAs (Decidable (_ = true))

theorem excerpt_eq_ok {h : String} : excerpt h = .ok () ↔ QuoteFits h := by
  unfold excerpt QuoteFits
  split <;> simp_all [pure, Except.pure, throw, throwThe, MonadExceptOf.throw]

theorem val_lt {c n : UInt8} {index : Nat} (h : val c index = .ok n) : c < 128 := by
  unfold val at h
  split at h
  · rename_i hc
    exact UInt8.lt_of_le_of_lt hc.2 (by decide)
  · split at h
    · rename_i hc
      exact UInt8.lt_of_le_of_lt hc.2 (by decide)
    · split at h
      · rename_i hc
        exact UInt8.lt_of_le_of_lt hc.2 (by decide)
      · cases h

/-- Digits are ASCII. -/
theorem forall_lt_of_decodePairs {bs out : List UInt8} {index : Nat} (heven : bs.length % 2 = 0)
    (h : decodePairs index bs = .ok out) : ∀ b ∈ bs, b < 128 := by
  induction index, bs using decodePairs.induct generalizing out with
  | case1 index hi lo rest ih =>
      rw [decodePairs] at h
      obtain ⟨_, hhi, h⟩ := bind_eq_ok.mp h
      obtain ⟨_, hlo, h⟩ := bind_eq_ok.mp h
      obtain ⟨_, hrest, -⟩ := bind_eq_ok.mp h
      simp only [List.length_cons] at heven
      exact List.forall_mem_cons.mpr ⟨val_lt hhi, List.forall_mem_cons.mpr
        ⟨val_lt hlo, ih (by omega) hrest⟩⟩
  | case2 bs index hne =>
      rcases bs with _ | ⟨b, _ | ⟨lo, rest⟩⟩
      · exact List.forall_mem_nil _
      · cases heven
      · exact absurd rfl (hne b lo rest)

theorem le_or_128 (b : UInt8) : 128 ≤ b ||| 128 := by
  rw [UInt8.le_iff_toNat_le, UInt8.toNat_or]
  exact Nat.right_le_or

/-- A character of several bytes has one that is not ASCII. -/
theorem utf8Size_eq_one {c : Char} (h : ∀ b ∈ String.utf8EncodeChar c, b < 128) :
    c.utf8Size = 1 := by
  have hlast : ∀ b : UInt8, b ||| 128 ∉ String.utf8EncodeChar c := fun b hb ↦
    absurd (h _ hb) (UInt8.not_lt.mpr (le_or_128 b))
  rcases Char.utf8Size_eq c with h₁ | h₂ | h₃ | h₄
  · exact h₁
  · refine absurd ?_ (hlast (c.val.toUInt8 &&& 0x3f))
    rw [String.utf8EncodeChar_eq_cons_cons h₂]
    simp
  · refine absurd ?_ (hlast (c.val.toUInt8 &&& 0x3f))
    rw [String.utf8EncodeChar_eq_cons_cons_cons h₃]
    simp
  · refine absurd ?_ (hlast (c.val.toUInt8 &&& 0x3f))
    rw [String.utf8EncodeChar_eq_cons_cons_cons_cons h₄]
    simp

/-- In a text of one-byte characters every offset is a boundary. -/
theorem isCharBoundary_of_utf8Size {cs : List Char} (h : ∀ c ∈ cs, c.utf8Size = 1) {n : Nat}
    (hn : n ≤ cs.length) : isCharBoundary cs n = true := by
  induction cs generalizing n with
  | nil =>
      obtain rfl := Nat.le_zero.mp hn
      rfl
  | cons c cs ih =>
      obtain ⟨hc, hcs⟩ := List.forall_mem_cons.mp h
      cases n with
      | zero => rfl
      | succ n =>
          rw [isCharBoundary, hc, Nat.add_sub_cancel, ih hcs (Nat.le_of_succ_le_succ hn)]
          simp

/-- Hexadecimal text can be quoted. -/
theorem quoteFits_of_decode {h : String} {bs : List UInt8} (hd : Hex.decode h = .ok bs) :
    QuoteFits h := by
  unfold Hex.decode at hd
  dsimp only at hd
  split at hd
  · rename_i heven
    have hascii := forall_lt_of_decodePairs heven hd
    have hsize : ∀ c ∈ h.toList, c.utf8Size = 1 := fun c hc ↦
      utf8Size_eq_one fun b hb ↦ hascii b (List.mem_flatMap.mpr ⟨c, hc, hb⟩)
    have hlen : h.utf8ByteSize = h.toList.length := by
      rw [← length_utf8Bytes, utf8Bytes, List.length_flatMap]
      simp only [String.length_utf8EncodeChar]
      rw [List.map_congr_left hsize, List.map_const', List.sum_replicate, smul_eq_mul, mul_one]
    exact isCharBoundary_of_utf8Size hsize ((min_le_left _ _).trans hlen.le)
  · cases hd

/-- An entry stops the scan exactly when its quote does. -/
theorem exists_decodeKnownNullifier_iff {k : String} :
    (∃ o, decodeKnownNullifier k = .ok o) ↔ QuoteFits k := by
  unfold decodeKnownNullifier
  cases hd : Hex.decode k with
  | ok bs => exact iff_of_true ⟨_, rfl⟩ (quoteFits_of_decode hd)
  | error e =>
      rw [← excerpt_eq_ok]
      constructor
      · rintro ⟨o, ho⟩
        obtain ⟨⟨⟩, hex, -⟩ := bind_eq_ok.mp ho
        exact hex
      · intro hex
        exact ⟨none, bind_eq_ok.mpr ⟨(), hex, rfl⟩⟩

/-! ## The phases on a set of values -/

section Phases

variable {U : NoteCrypto} {rt : Runtime} {srv : Server} {ufvk : U.Ufvk} {network : Network}
  {results : List TrialResult} {ks ks' : List Bytes32}

variable (U rt srv ufvk network) in
/-- Phases 2 to 6, with the values of the known list. -/
def scanKnown (known : List Bytes32) (results : List TrialResult) :
    Except Failure SyncResult := do
  let matched ← collectM (fetchOf U srv ufvk network) (phase2Targets results)
  let ours := known ++ matched.flatMap Prod.snd
  let found ← phase4 U rt srv ufvk network ours results (matched.map Prod.fst)
  let spent := spentIn ours TrialResult.txNullifiers results
  let spentIronwood := spentIn ours TrialResult.txIronwoodNullifiers results
  let transactions ← phase5 spent spentIronwood found
  pure
    { transactions
      blocksScanned := asU32 results.length
      spentKnownNullifiers :=
        ((rt.shuffle spent ++ rt.shuffle spentIronwood).filter (known.contains ·)).map
          fun nf ↦ Hex.encode nf.1 }

/-- The list is decoded once before the phases and once after them, with one answer. -/
theorem scanResults_eq_scanKnown {known : List String} (h : ∀ k ∈ known, QuoteFits k) :
    scanResults U rt srv ufvk network known results =
      scanKnown U rt srv ufvk network (knownValues known) results := by
  have hdecode : decodeKnownNullifiers known = .ok (knownValues known) :=
    decodeKnownNullifiers_ok fun k hk ↦ exists_decodeKnownNullifier_iff.mpr (h k hk)
  simp only [scanResults, scanKnown, hdecode, ok_bind, List.contains_eq_mem]

theorem spentIn_congr (h : ∀ n, n ∈ ks ↔ n ∈ ks')
    (perTx : TrialResult → List (String × List Bytes32)) (results : List TrialResult) :
    spentIn ks perTx results = spentIn ks' perTx results := by
  simp only [spentIn, h]

theorem phase4_congr (h : ∀ n, n ∈ ks ↔ n ∈ ks') (results : List TrialResult)
    (found : List ShieldedTransaction) :
    phase4 U rt srv ufvk network ks results found =
      phase4 U rt srv ufvk network ks' results found := by
  have hnil : ks = [] ↔ ks' = [] := by
    simp only [List.eq_nil_iff_forall_not_mem, h]
  have htargets : ∀ alreadyFound, phase4Targets rt ks alreadyFound results =
      phase4Targets rt ks' alreadyFound results := by
    intro alreadyFound
    simp only [phase4Targets, h]
  simp only [phase4, hnil, htargets]

/-- The phases see of the known values only which ones they are. -/
theorem scanKnown_congr (h : ∀ n, n ∈ ks ↔ n ∈ ks') :
    scanKnown U rt srv ufvk network ks results = scanKnown U rt srv ufvk network ks' results := by
  have hours : ∀ (received : List Bytes32) n, n ∈ ks ++ received ↔ n ∈ ks' ++ received := by
    intro received n
    rw [List.mem_append, List.mem_append, h]
  unfold scanKnown
  refine bind_congr fun matched ↦ ?_
  have hspent := spentIn_congr (hours (matched.flatMap Prod.snd))
  simp only [phase4_congr (hours (matched.flatMap Prod.snd)), hspent, List.contains_eq_mem, h]

end Phases

/-! ## The scan -/

section Scan

variable {U : NoteCrypto} {rt : Runtime} {srv : Server} {p : SyncParams} {v : View U}
  {blocks : List Proto.CompactBlock} {results : List TrialResult}

/-- It fails with an error, not with a panic. -/
abbrev ErrorsOnly {α : Type} (x : Except Failure α) : Prop := FailsOnly (· ≠ .panic) x

theorem errorsOnly_orFail {ε α : Type} (x : Except ε α) (text : ε → String) :
    ErrorsOnly (orFail x text) := FailsOnly.mapError fun _ h ↦ nomatch h

theorem errorsOnly_parseSyncKeys (networkStr : Option String) (viewingKey : String) :
    ErrorsOnly (parseSyncKeys U networkStr viewingKey) :=
  (errorsOnly_orFail _ _).bind fun _ ↦ (errorsOnly_orFail _ _).bind fun _ ↦
    (errorsOnly_orFail _ _).bind fun _ ↦ .pure _

theorem errorsOnly_fetchOf (ufvk : U.Ufvk) (network : Network) (at' : TrialResult × String) :
    ErrorsOnly (fetchOf U srv ufvk network at') := by
  refine (errorsOnly_orFail _ _).bind fun _ ↦ (errorsOnly_orFail _ _).bind fun _ ↦ ?_
  dsimp only
  split
  · exact .pure _
  · exact .pure _

/-- Once the known list is decoded nothing panics. -/
theorem Scanned.errorsOnly_scanResults (hs : Scanned v blocks results) {known : List String}
    (h : ∀ k ∈ known, QuoteFits k) :
    ErrorsOnly (scanResults U rt srv v.ufvk v.network known results) := by
  have hdecode : decodeKnownNullifiers known = .ok (knownValues known) :=
    decodeKnownNullifiers_ok fun k hk ↦ exists_decodeKnownNullifier_iff.mpr (h k hk)
  unfold scanResults
  simp only [hdecode, ok_bind]
  refine (FailsOnly.collectM (errorsOnly_fetchOf v.ufvk v.network) _).bind_of_ok
    fun matched hmatched ↦ ?_
  obtain ⟨hall, rfl⟩ := collectM_eq_ok_iff.mp hmatched
  refine FailsOnly.bind_of_ok ?_ fun found hfound ↦ ?_
  · exact .ite (.pure _) ((FailsOnly.collectM (errorsOnly_fetchOf v.ufvk v.network) _).bind
      fun _ ↦ .pure _)
  · obtain ⟨-, rfl⟩ := eq_unmarked_of_phase4 hall hfound
    obtain ⟨txs, htxs⟩ := hs.exists_phase5 rt srv known
    refine FailsOnly.bind ?_ fun _ ↦ .pure _
    exact fun e he ↦ nomatch htxs.symm.trans he

/-! ### Up to the known list -/

variable (U rt srv p) in
/-- The scan up to where the known list is looked at. -/
def streamedResults : Except ScanFailure ((Network × U.Ufvk) × List TrialResult) := do
  let (network, ivks, ufvk) ← afterBlocks 0 (parseSyncKeys U p.network p.viewingKey)
  afterBlocks 0 (orFail srv.connect id)
  let stream ← afterBlocks 0 (orFail
    (srv.getBlockRange p.startHeight.toNat p.endHeight.toNat) fun e ↦ "GetBlockRange failed: " ++ e)
  let results ← streamBlocks U rt network ivks p.orchardOnly stream
  pure ((network, ufvk), results)

theorem runSyncInner_eq : runSyncInner U rt srv p = (do
    let ((network, ufvk), results) ← streamedResults U rt srv p
    let result ← afterBlocks results.length
      (scanResults U rt srv ufvk network p.knownNullifiers results)
    pure { result, emitted := result.transactions, blocksDone := results.length }) := by
  simp only [runSyncInner, streamedResults, bind_assoc, pure_bind]

/-- The scan reaches the known list: its keys parse, and the stream is read to its end. -/
def ReachesKnown (U : NoteCrypto) (srv : Server) (p : SyncParams) : Prop :=
  ∃ (v : View U) (blocks : List Proto.CompactBlock), p.view U = .ok v ∧ srv.connect = .ok () ∧
    srv.getBlockRange p.startHeight.toNat p.endHeight.toNat = .ok (blocks.map .ok)

theorem errorsOnly_streamedResults :
    FailsOnly (fun err : ScanFailure ↦ err.failure ≠ .panic) (streamedResults U rt srv p) := by
  have hafter : ∀ {α : Type} {n : Nat} {x : Except Failure α}, ErrorsOnly x →
      FailsOnly (fun err : ScanFailure ↦ err.failure ≠ .panic) (afterBlocks n x) :=
    fun hx ↦ hx.mapError_of fun _ he ↦ he
  refine (hafter (errorsOnly_parseSyncKeys _ _)).bind fun keys ↦ ?_
  refine (hafter (errorsOnly_orFail _ _)).bind fun _ ↦ ?_
  refine (hafter (errorsOnly_orFail _ _)).bind fun stream ↦ ?_
  refine FailsOnly.bind ?_ fun _ ↦ .pure _
  exact (hafter (FailsOnly.mapM (fun item ↦ errorsOnly_orFail item _) stream)).bind fun _ ↦ .pure _

theorem reachesKnown_of_streamedResults {keys : Network × U.Ufvk}
    (h : streamedResults U rt srv p = .ok (keys, results)) :
    ReachesKnown U srv p ∧ ∃ blocks, Scanned ⟨keys.1, keys.2, p.orchardOnly⟩ blocks results := by
  obtain ⟨⟨network, ivks, ufvk⟩, hkeys, h⟩ := bind_eq_ok.mp h
  obtain ⟨⟨⟩, hconnect, h⟩ := bind_eq_ok.mp h
  obtain ⟨stream, hstream, h⟩ := bind_eq_ok.mp h
  obtain ⟨results', hresults, h⟩ := bind_eq_ok.mp h
  cases pure_eq_ok.mp h
  rw [afterBlocks_eq_ok] at hkeys hconnect hstream
  rw [orFail_eq_ok] at hconnect hstream
  have hivks : ivks = prepareIvksOf U ufvk := parseSyncKeys_eq_ok hkeys
  subst hivks
  let v : View U := ⟨network, ufvk, p.orchardOnly⟩
  obtain ⟨blocks, rfl, hscanned⟩ := streamBlocks_eq_ok (v := v) hresults
  refine ⟨⟨v, blocks, ?_, hconnect, hstream⟩, blocks, hscanned⟩
  simp [SyncParams.view, hkeys, Except.map, v]

theorem exists_streamedResults (h : ReachesKnown U srv p) (rt : Runtime) :
    ∃ r, streamedResults U rt srv p = .ok r := by
  obtain ⟨v, blocks, hview, hconnect, hstream⟩ := h
  obtain ⟨hkeys, horchard⟩ := parseSyncKeys_of_view hview
  obtain ⟨results, -, hresults⟩ := exists_streamBlocks rt v blocks
  rw [horchard] at hresults
  exact ⟨_, bind_eq_ok.mpr ⟨_, afterBlocks_eq_ok.mpr hkeys, bind_eq_ok.mpr
    ⟨(), afterBlocks_eq_ok.mpr (orFail_eq_ok.mpr hconnect), bind_eq_ok.mpr
      ⟨_, afterBlocks_eq_ok.mpr (orFail_eq_ok.mpr hstream), bind_eq_ok.mpr
        ⟨_, hresults, rfl⟩⟩⟩⟩⟩

/-! ### The known list as a set -/

variable (U rt srv p) in
/-- What the known list does to a scan: nothing in it makes the scan panic, the scan is the same
with any list of 32-byte values for the same set, and its result is that of the set. -/
structure KnownHandled : Prop where
  noPanic : ∀ err, runSyncInner U rt srv p = .error err → err.failure ≠ .panic
  asSet : ∀ ks : List String, (∀ k ∈ ks, ∃ n : Bytes32, Hex.decode k = .ok n.1) →
    knownSet ks = knownSet p.knownNullifiers →
    runSyncInner U rt srv { p with knownNullifiers := ks } = runSyncInner U rt srv p
  outcome : ∀ v blocks out, p.view U = .ok v →
    srv.getBlockRange p.startHeight.toNat p.endHeight.toNat = .ok (blocks.map .ok) →
    runSyncInner U rt srv p = .ok out →
    Outcome srv v (knownSet p.knownNullifiers) blocks out.result

/-- A scan that does not reach the known list ends with an error, whatever is in the list. -/
theorem knownHandled_of_not_reachesKnown (h : ¬ReachesKnown U srv p) :
    KnownHandled U rt srv p := by
  cases hstreamed : streamedResults U rt srv p with
  | ok r =>
      obtain ⟨keys, results⟩ := r
      exact absurd (reachesKnown_of_streamedResults hstreamed).1 h
  | error err =>
      have hrun : ∀ ks, runSyncInner U rt srv { p with knownNullifiers := ks } = .error err := by
        intro ks
        rw [runSyncInner_eq]
        show streamedResults U rt srv p >>= _ = _
        rw [hstreamed]
        rfl
      have hrun' : runSyncInner U rt srv p = .error err := hrun p.knownNullifiers
      refine ⟨fun err' herr ↦ ?_, fun ks _ _ ↦ (hrun ks).trans hrun'.symm,
        fun v blocks out _ _ hout ↦ nomatch hrun'.symm.trans hout⟩
      cases hrun'.symm.trans herr
      exact errorsOnly_streamedResults _ hstreamed

/-- A list that can be quoted is handled. -/
theorem knownHandled_of_quoteFits (h : ∀ k ∈ p.knownNullifiers, QuoteFits k) :
    KnownHandled U rt srv p := by
  refine ⟨?_, ?_, fun v blocks out hv hb hout ↦ outcome_of_runSyncInner hv hb hout⟩
  · rw [runSyncInner_eq]
    refine errorsOnly_streamedResults.bind_of_ok fun r hr ↦ ?_
    obtain ⟨keys, results⟩ := r
    obtain ⟨-, blocks, hs⟩ := reachesKnown_of_streamedResults hr
    exact FailsOnly.bind ((hs.errorsOnly_scanResults h).mapError_of fun _ he ↦ he) fun _ ↦ .pure _
  · intro ks hks hset
    have hfits : ∀ k ∈ ks, QuoteFits k := fun k hk ↦
      (hks k hk).elim fun n hn ↦ quoteFits_of_decode hn
    have hvalues : ∀ n, n ∈ knownValues ks ↔ n ∈ knownValues p.knownNullifiers := by
      intro n
      rw [mem_knownValues, mem_knownValues]
      exact Set.ext_iff.mp hset n
    rw [runSyncInner_eq, runSyncInner_eq]
    refine bind_congr fun r ↦ ?_
    simp only [scanResults_eq_scanKnown hfits, scanResults_eq_scanKnown h, scanKnown_congr hvalues]

/-- An entry that cannot be quoted makes a scan panic that reaches it. -/
theorem exists_panic (rt : Runtime) (hreach : ReachesKnown U srv p) {k : String}
    (hk : k ∈ p.knownNullifiers) (h : ¬QuoteFits k) :
    ∃ err, runSyncInner U rt srv p = .error err ∧ err.failure = .panic := by
  have hpanic : decodeKnownNullifiers p.knownNullifiers = .error .panic := by
    have hentry : ∀ k, FailsOnly (· = Failure.panic) (decodeKnownNullifier k) := by
      intro k
      unfold decodeKnownNullifier
      split
      · exact .pure _
      · exact FailsOnly.bind (.ite (.pure _) (.error rfl)) fun _ ↦ .pure _
    cases hdecode : decodeKnownNullifiers p.knownNullifiers with
    | error e => rw [FailsOnly.collectM hentry _ e hdecode]
    | ok values =>
        exact absurd (exists_decodeKnownNullifier_iff.mp ((collectM_eq_ok_iff.mp hdecode).1 k hk)) h
  obtain ⟨⟨⟨network, ufvk⟩, results⟩, hr⟩ := exists_streamedResults hreach rt
  refine ⟨⟨.panic, results.length⟩, ?_, rfl⟩
  rw [runSyncInner_eq, hr, ok_bind]
  simp only [scanResults, hpanic]
  rfl

/-- The known list is handled exactly when no entry has a character across byte 16, or the scan
does not reach the list. -/
theorem knownHandled_iff : KnownHandled U rt srv p ↔
    (∀ k ∈ p.knownNullifiers, QuoteFits k) ∨ ¬ReachesKnown U srv p := by
  constructor
  · intro h
    by_contra hnot
    obtain ⟨hfits, hreach⟩ := not_or.mp hnot
    obtain ⟨k, hk, hquote⟩ : ∃ k ∈ p.knownNullifiers, ¬QuoteFits k := by
      by_contra hall
      exact hfits fun k hk ↦ by_contra fun hquote ↦ hall ⟨k, hk, hquote⟩
    obtain ⟨err, herr, hpanic⟩ := exists_panic rt (not_not.mp hreach) hk hquote
    exact h.noPanic err herr hpanic
  · rintro (h | h)
    · exact knownHandled_of_quoteFits h
    · exact knownHandled_of_not_reachesKnown h

end Scan

/-- Fifteen letters and an accented one, which takes bytes 15 and 16. -/
def accentedEntry : String := "not-hexadecimal\u00e9"

/-- The scan of the small chain panics on it. -/
theorem accented_panics : ∃ err, runSyncInner sampleCrypto sampleRuntime sampleServer
    { sampleParams 1 2 with knownNullifiers := [accentedEntry] } = .error err ∧
      err.failure = .panic :=
  exists_panic sampleRuntime ⟨sampleView, sampleBlocks, rfl, rfl, rfl⟩ List.mem_cons_self
    (by decide +kernel)

end LedgerZcash
