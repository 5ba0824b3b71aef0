import LedgerZcash.Lib.TryPipeline
import LedgerZcash.Sync.Progress

/-!
# A scan, step by step

`run_sync_inner` feeds the blocks of its stream to `try_buffer_unordered`: some of them are
trial-decrypted at once, they complete in any order, and an error of the stream drops those in
flight.  `runSyncInner` takes the order of completion from its `Runtime`; here the pipeline
makes its steps one by one (`ScanRun`).  Whatever they are, few blocks are in flight and none is
lost (`scan_pipelined`), and the scan agrees with `runSyncInner` under any runtime: the same
transactions, in height order again (`scanRun_agrees`).
-/

namespace LedgerZcash

open Collect Trace

/-! ## The phases in another order -/

section Reordered

variable {U : NoteCrypto} {rt rt' : Runtime} {srv : Server} {v : View U} {known : List String}
  {results results' : List TrialResult}

theorem perTx_perm {β : Type} (h : results.Perm results') (f : TrialResult → List β) :
    (results.flatMap f).Perm (results'.flatMap f) := h.flatMap_right f

theorem kept_perm (h : results.Perm results') :
    (phase2Kept srv v results).Perm (phase2Kept srv v results') :=
  (perTx_perm h _).filterMap _

theorem oursOf_perm (h : results.Perm results') :
    (oursOf srv v known results).Perm (oursOf srv v known results') :=
  List.Perm.append_left _ ((kept_perm h).flatMap_right _)

/-- What Phase 4 fetches depends on the tracked nullifiers and the txids found as sets only. -/
theorem phase4Targets_perm {ours ours' : List Bytes32} {found found' : List String}
    (h : results.Perm results') (hours : ours.Perm ours') (hfound : found.Perm found') :
    (phase4Targets rt ours found results).Perm (phase4Targets rt' ours' found' results') := by
  refine h.flatMap fun r _ ↦ ?_
  have hany : ∀ nfs : List Bytes32, nfs.any (· ∈ ours) = nfs.any (· ∈ ours') := by
    intro nfs
    refine congrArg (List.any nfs) (funext fun n ↦ ?_)
    exact decide_eq_decide.mpr hours.mem_iff
  simp only [hany, hfound.mem_iff]
  exact ((rt.shuffle_perm _).trans (rt'.shuffle_perm _).symm).filterMap _

theorem spentOf_perm (h : results.Perm results') (pool : Pool) :
    (spentOf srv v known results pool).Perm (spentOf srv v known results' pool) := by
  have hours : ∀ n, decide (n ∈ oursOf srv v known results) =
      decide (n ∈ oursOf srv v known results') := fun n ↦
    decide_eq_decide.mpr (oursOf_perm h).mem_iff
  rw [spentOf, spentOf, spentIn, spentIn]
  simp only [hours]
  exact (((perTx_perm h _).flatMap_right _).filter _).dedup

theorem unmarked_perm (h : results.Perm results') :
    (unmarked rt srv v known results).Perm (unmarked rt' srv v known results') := by
  have hours : (oursOf srv v known results).Perm (oursOf srv v known results') := oursOf_perm h
  have hfound : ((phase2Kept srv v results).map Prod.fst).Perm
      ((phase2Kept srv v results').map Prod.fst) := (kept_perm h).map _
  have hspending : (phase4Kept rt srv v known results).Perm (phase4Kept rt' srv v known results') :=
    ((phase4Targets_perm h hours (hfound.map _)).filterMap _).map _
  unfold unmarked
  have hnil : oursOf srv v known results = [] ↔ oursOf srv v known results' = [] := by
    rw [← List.length_eq_zero_iff, hours.length_eq, List.length_eq_zero_iff]
  by_cases h' : oursOf srv v known results' = []
  · rw [if_pos (hnil.mpr h'), if_pos h']
    exact hfound
  · rw [if_neg (mt hnil.mp h'), if_neg h']
    exact (rt.sortByKey_perm _ _).trans
      ((hfound.append hspending).trans (rt'.sortByKey_perm _ _).symm)

theorem flagNote_perm {spent spent' : List Bytes32} (h : spent.Perm spent') :
    flagNote spent = flagNote spent' := by
  funext note
  have hin : note.nullifierIn spent = note.nullifierIn spent' :=
    congrArg (Option.any · note.nullifier) (funext fun _ ↦ h.any_eq)
  rw [flagNote, flagNote, hin]

/-- Two scans of the same block results, in two orders, return the same. -/
structure SyncResult.Same (res res' : SyncResult) : Prop where
  transactions : res.transactions.Perm res'.transactions
  blocksScanned : res.blocksScanned = res'.blocksScanned
  spentKnown : res.spentKnownNullifiers.Perm res'.spentKnownNullifiers

theorem same_of_scanResults {res res' : SyncResult} (hperm : results.Perm results')
    (h : scanResults U rt srv v.ufvk v.network known results = .ok res)
    (h' : scanResults U rt' srv v.ufvk v.network known results' = .ok res') : res.Same res' := by
  obtain ⟨-, htx, hcount, hspent⟩ := scanResults_eq_ok h
  obtain ⟨-, htx', hcount', hspent'⟩ := scanResults_eq_ok h'
  have hflag : flagTransaction (spentOf srv v known results) =
      flagTransaction (spentOf srv v known results') := by
    funext tx
    rw [flagTransaction, flagTransaction, flagNote_perm (spentOf_perm hperm .orchard),
      flagNote_perm (spentOf_perm hperm .ironwood)]
  refine ⟨?_, ?_, ?_⟩
  · rw [htx, htx', hflag]
    exact (unmarked_perm hperm).map _
  · rw [hcount, hcount', hperm.length_eq]
  · have hshuffle : ∀ pool, (rt.shuffle (spentOf srv v known results pool)).Perm
        (rt'.shuffle (spentOf srv v known results' pool)) := fun pool ↦
      (rt.shuffle_perm _).trans ((spentOf_perm hperm pool).trans (rt'.shuffle_perm _).symm)
    rw [hspent, hspent']
    exact (((hshuffle .orchard).append (hshuffle .ironwood)).filter _).map _

end Reordered

/-! ## The scan -/

/-- `pipeline_depth`: half the processors, at least two and at most sixteen. -/
def pipelineDepth (availableParallelism : Option Nat) : Nat :=
  (availableParallelism.map fun p ↦ max 2 (min (p / 2) 16)).getD 4

theorem pipelineDepth_bounds (availableParallelism : Option Nat) :
    2 ≤ pipelineDepth availableParallelism ∧ pipelineDepth availableParallelism ≤ 16 := by
  cases availableParallelism with
  | none => decide
  | some p =>
      simp only [pipelineDepth, Option.map_some, Option.getD_some]
      omega

section Run

variable (U : NoteCrypto)

/-- What comes before the first block: the keys, and the stream that the server opens. -/
def openStream (srv : Server) (p : SyncParams) :
    Except Failure ((Network × PreparedIvks U × U.Ufvk) ×
      List (Except String Proto.CompactBlock)) := do
  let keys ← parseSyncKeys U p.network p.viewingKey
  orFail srv.connect id
  let stream ← orFail (srv.getBlockRange p.startHeight.toNat p.endHeight.toNat) fun e ↦
    "GetBlockRange failed: " ++ e
  pure (keys, stream)

/-- What comes after the last one, when the results are back in height order. -/
def finishScan (rt : Runtime) (srv : Server) (ufvk : U.Ufvk) (network : Network)
    (knownNullifiers : List String) (results : List TrialResult) :
    Except ScanFailure ScanOutput := do
  let result ← afterBlocks results.length
    (scanResults U rt srv ufvk network knownNullifiers results)
  pure { result, emitted := result.transactions, blocksDone := results.length }

/-- The blocks in flight and completed, step by step; each completion is an `on_block_done`
call. -/
abbrev ScanStep (parallelism : Option Nat) (threads : Nat) (ivks : PreparedIvks U)
    (orchardOnly : Bool) (network : Network) :=
  TryPipeline.Step (ε := String) (pipelineDepth parallelism)
    (processCompactBlock U threads ivks orchardOnly network)

/-- The outcomes of `run_sync_inner` over all interleavings of its pipeline. -/
inductive ScanRun (parallelism : Option Nat) (rt : Runtime) (srv : Server) (p : SyncParams) :
    Except ScanFailure ScanOutput → Prop
  | refused {failure : Failure} (hopen : openStream U srv p = .error failure) :
      ScanRun parallelism rt srv p (.error ⟨failure, 0⟩)
  | broken {network : Network} {ivks : PreparedIvks U} {ufvk : U.Ufvk}
      {stream : List (Except String Proto.CompactBlock)}
      {tr : List (TryPipeline.Event String Proto.CompactBlock)}
      {s : TryPipeline.State String Proto.CompactBlock TrialResult} {e : String}
      (hopen : openStream U srv p = .ok ((network, ivks, ufvk), stream))
      (hrun : Run (ScanStep U parallelism rt.threads ivks p.orchardOnly network) (.init stream)
        tr s)
      (hfailed : s.failed = some e) :
      ScanRun parallelism rt srv p (.error ⟨.error ("stream error: " ++ e), s.done.length⟩)
  | collected {network : Network} {ivks : PreparedIvks U} {ufvk : U.Ufvk}
      {stream : List (Except String Proto.CompactBlock)}
      {tr : List (TryPipeline.Event String Proto.CompactBlock)}
      {s : TryPipeline.State String Proto.CompactBlock TrialResult}
      (hopen : openStream U srv p = .ok ((network, ivks, ufvk), stream))
      (hrun : Run (ScanStep U parallelism rt.threads ivks p.orchardOnly network) (.init stream)
        tr s)
      (hended : s.Ended) (hok : s.failed = none) :
      ScanRun parallelism rt srv p
        (finishScan U rt srv ufvk network p.knownNullifiers
          (rt.sortByKey TrialResult.height s.done))

/-- The blocks of the range, when the stream can be read to its end. -/
def readBlocks (srv : Server) (p : SyncParams) : Except Failure (List Proto.CompactBlock) := do
  let (_, stream) ← openStream U srv p
  readStream (fun e ↦ "stream error: " ++ e) stream

/-- The reported and the emitted transactions are in height order. -/
structure ScanOutput.Ascending (out : ScanOutput) : Prop where
  transactions : out.result.transactions.Pairwise fun t t' ↦ t.blockHeight ≤ t'.blockHeight
  emitted : out.emitted.Pairwise fun t t' ↦ t.blockHeight ≤ t'.blockHeight

/-- Two outcomes of one scan.  Both succeed or both fail.  What they return is the same and in
height order, so that only transactions of one height can stand in another order; what keeps the
blocks from being read is reported by both. -/
structure Agree (srv : Server) (p : SyncParams) (x y : Except ScanFailure ScanOutput) : Prop where
  succeeds : (∃ out, x = .ok out) ↔ ∃ out, y = .ok out
  same : ∀ out out', x = .ok out → y = .ok out' →
    out.result.Same out'.result ∧ out.emitted.Perm out'.emitted ∧ out.blocksDone = out'.blocksDone
  ascending : ∀ out, x = .ok out ∨ y = .ok out → out.Ascending
  unread : ∀ failure, readBlocks U srv p = .error failure →
    (∃ n, x = .error ⟨failure, n⟩) ∧ ∃ n, y = .error ⟨failure, n⟩

end Run

section Agreement

variable {U : NoteCrypto} {srv : Server} {p : SyncParams} {rt rt' : Runtime}
  {x y z : Except ScanFailure ScanOutput}

theorem SyncResult.Same.symm {res res' : SyncResult} (h : res.Same res') : res'.Same res :=
  ⟨h.transactions.symm, h.blocksScanned.symm, h.spentKnown.symm⟩

theorem SyncResult.Same.trans {res res' res'' : SyncResult} (h : res.Same res')
    (h' : res'.Same res'') : res.Same res'' :=
  ⟨h.transactions.trans h'.transactions, h.blocksScanned.trans h'.blocksScanned,
    h.spentKnown.trans h'.spentKnown⟩

theorem Agree.symm (h : Agree U srv p x y) : Agree U srv p y x := by
  refine ⟨h.succeeds.symm, fun out out' hy hx ↦ ?_, fun out hout ↦ h.ascending out hout.symm,
    fun failure hf ↦ (h.unread failure hf).symm⟩
  obtain ⟨hsame, hemitted, hdone⟩ := h.same out' out hx hy
  exact ⟨hsame.symm, hemitted.symm, hdone.symm⟩

theorem Agree.trans (h : Agree U srv p x y) (h' : Agree U srv p y z) : Agree U srv p x z := by
  refine ⟨h.succeeds.trans h'.succeeds, fun out out'' hx hz ↦ ?_, fun out hout ↦ ?_,
    fun failure hf ↦ ⟨(h.unread failure hf).1, (h'.unread failure hf).2⟩⟩
  · obtain ⟨out', hy⟩ := h.succeeds.mp ⟨out, hx⟩
    obtain ⟨hsame, hemitted, hdone⟩ := h.same out out' hx hy
    obtain ⟨hsame', hemitted', hdone'⟩ := h'.same out' out'' hy hz
    exact ⟨hsame.trans hsame', hemitted.trans hemitted', hdone.trans hdone'⟩
  · exact hout.elim (fun hx ↦ h.ascending out (.inl hx)) fun hz ↦ h'.ascending out (.inr hz)

theorem runSyncInner_of_refused {failure : Failure} (h : openStream U srv p = .error failure) :
    runSyncInner U rt srv p = .error ⟨failure, 0⟩ := by
  unfold openStream at h
  unfold runSyncInner
  cases hkeys : parseSyncKeys U p.network p.viewingKey with
  | error e =>
      rw [hkeys] at h
      cases h
      rfl
  | ok keys =>
      rw [hkeys] at h
      cases hconnect : srv.connect with
      | error e =>
          rw [hconnect] at h
          cases h
          rfl
      | ok u =>
          rw [hconnect] at h
          cases hstream : srv.getBlockRange p.startHeight.toNat p.endHeight.toNat with
          | error e =>
              rw [hstream] at h
              cases h
              rfl
          | ok stream =>
              rw [hstream] at h
              cases h

theorem runSyncInner_of_open {network : Network} {ivks : PreparedIvks U} {ufvk : U.Ufvk}
    {stream : List (Except String Proto.CompactBlock)}
    (h : openStream U srv p = .ok ((network, ivks, ufvk), stream)) :
    runSyncInner U rt srv p = streamBlocks U rt network ivks p.orchardOnly stream >>=
      finishScan U rt srv ufvk network p.knownNullifiers := by
  unfold openStream at h
  obtain ⟨keys, hkeys, h⟩ := bind_eq_ok.mp h
  obtain ⟨⟨⟩, hconnect, h⟩ := bind_eq_ok.mp h
  obtain ⟨stream', hstream, h⟩ := bind_eq_ok.mp h
  cases pure_eq_ok.mp h
  unfold runSyncInner
  rw [hkeys, hconnect, hstream]
  rfl

/-- A stream is a list of blocks, or breaks off at its first error. -/
theorem readStream_of_broken {error : String → String} {blocks : List Proto.CompactBlock}
    {e : String} {rest : List (Except String Proto.CompactBlock)} :
    readStream error (blocks.map .ok ++ .error e :: rest) = .error (.error (error e)) := by
  induction blocks with
  | nil => rfl
  | cons b blocks ih =>
      rw [readStream] at ih ⊢
      rw [List.map_cons, List.cons_append, List.mapM_cons, ih]
      rfl

/-- The keys with which a stream was opened, as a view. -/
theorem view_of_open {network : Network} {ivks : PreparedIvks U} {ufvk : U.Ufvk}
    {stream : List (Except String Proto.CompactBlock)}
    (h : openStream U srv p = .ok ((network, ivks, ufvk), stream)) :
    ∃ v : View U, v.network = network ∧ v.ufvk = ufvk ∧ v.orchardOnly = p.orchardOnly ∧
      ivks = prepareIvksOf U v.ufvk := by
  unfold openStream at h
  obtain ⟨keys, hkeys, h⟩ := bind_eq_ok.mp h
  obtain ⟨-, -, h⟩ := bind_eq_ok.mp h
  obtain ⟨stream', -, h⟩ := bind_eq_ok.mp h
  cases pure_eq_ok.mp h
  exact ⟨⟨network, ufvk, p.orchardOnly⟩, rfl, rfl, rfl, parseSyncKeys_eq_ok hkeys⟩

section Scanned

variable {v : View U} {blocks : List Proto.CompactBlock} {results results' : List TrialResult}
  {known : List String}

theorem finishScan_eq_ok {ufvk : U.Ufvk} {network : Network} {out : ScanOutput} :
    finishScan U rt srv ufvk network known results = .ok out ↔
      scanResults U rt srv ufvk network known results = .ok out.result ∧
        out.emitted = out.result.transactions ∧ out.blocksDone = results.length := by
  rw [finishScan, bind_eq_ok]
  simp only [afterBlocks_eq_ok, pure_eq_ok]
  constructor
  · rintro ⟨result, hresult, rfl⟩
    exact ⟨hresult, rfl, rfl⟩
  · rintro ⟨hresult, hemitted, hdone⟩
    refine ⟨_, hresult, ?_⟩
    rw [← hemitted, ← hdone]

/-- The phases succeed or fail by what the server answers, not by the order of the results. -/
theorem scanResults_isOk_iff (h : Scanned v blocks results) :
    (∃ res, scanResults U rt srv v.ufvk v.network known results = .ok res) ↔
      (∀ k ∈ known, ∃ o, decodeKnownNullifier k = .ok o) ∧ Answers srv v known blocks := by
  constructor
  · rintro ⟨res, hres⟩
    exact ⟨known_of_scanResults hres, h.fetched_iff.mp (scanResults_eq_ok hres).1⟩
  · rintro ⟨hknown, hanswers⟩
    exact h.exists_scanResults hknown (h.fetched_iff.mpr hanswers)

theorem finishScan_isOk_iff (h : Scanned v blocks results) (h' : Scanned v blocks results') :
    (∃ out, finishScan U rt srv v.ufvk v.network known results = .ok out) ↔
      ∃ out, finishScan U rt' srv v.ufvk v.network known results' = .ok out := by
  have hok : ∀ {rt : Runtime} {results : List TrialResult}, Scanned v blocks results →
      ((∃ out, finishScan U rt srv v.ufvk v.network known results = .ok out) ↔
        (∀ k ∈ known, ∃ o, decodeKnownNullifier k = .ok o) ∧ Answers srv v known blocks) := by
    intro rt results hs
    have hscan : (∃ out, finishScan U rt srv v.ufvk v.network known results = .ok out) ↔
        ∃ res, scanResults U rt srv v.ufvk v.network known results = .ok res := by
      constructor
      · rintro ⟨out, hout⟩
        exact ⟨_, (finishScan_eq_ok.mp hout).1⟩
      · rintro ⟨res, hres⟩
        exact ⟨⟨res, res.transactions, results.length⟩, finishScan_eq_ok.mpr ⟨hres, rfl, rfl⟩⟩
    exact hscan.trans (scanResults_isOk_iff hs)
  rw [hok h, hok h']

theorem same_of_finishScan {out out' : ScanOutput} (h : Scanned v blocks results)
    (h' : Scanned v blocks results')
    (hout : finishScan U rt srv v.ufvk v.network known results = .ok out)
    (hout' : finishScan U rt' srv v.ufvk v.network known results' = .ok out') :
    out.result.Same out'.result ∧ out.emitted.Perm out'.emitted ∧
      out.blocksDone = out'.blocksDone := by
  obtain ⟨hres, hemitted, hdone⟩ := finishScan_eq_ok.mp hout
  obtain ⟨hres', hemitted', hdone'⟩ := finishScan_eq_ok.mp hout'
  have hperm : results.Perm results' := h.perm.trans h'.perm.symm
  have hsame := same_of_scanResults hperm hres hres'
  refine ⟨hsame, ?_, ?_⟩
  · rw [hemitted, hemitted']
    exact hsame.transactions
  · rw [hdone, hdone', hperm.length_eq]

/-- A scan of sorted results reports and emits in height order. -/
theorem ascending_of_finishScan {out : ScanOutput} (h : Scanned v blocks results)
    (hout : finishScan U rt srv v.ufvk v.network known results = .ok out) : out.Ascending := by
  obtain ⟨hres, hemitted, -⟩ := finishScan_eq_ok.mp hout
  have hascending := (outcome_of_scanResults h hres).ascending
  exact ⟨hascending, hemitted ▸ hascending⟩

end Scanned

/-- What the pipeline has completed, sorted, are the results of the stream's blocks. -/
theorem exists_scanned_of_ended {parallelism : Option Nat} {v : View U}
    {stream : List (Except String Proto.CompactBlock)}
    {tr : List (TryPipeline.Event String Proto.CompactBlock)}
    {s : TryPipeline.State String Proto.CompactBlock TrialResult}
    (hrun : Run (ScanStep U parallelism rt.threads (prepareIvksOf U v.ufvk) v.orchardOnly
      v.network) (.init stream) tr s)
    (hended : s.Ended) (hok : s.failed = none) :
    ∃ blocks, stream = blocks.map .ok ∧
      Scanned v blocks (rt.sortByKey TrialResult.height s.done) := by
  obtain ⟨blocks, hstream, hperm⟩ := TryPipeline.perm_of_ended hrun hended hok
  refine ⟨blocks, hstream, (rt.sortByKey_perm _ _).trans (hperm.trans (List.Perm.of_eq ?_)),
    rt.sortByKey_pairwise _ _⟩
  exact List.map_congr_left fun b _ ↦ processCompactBlock_eq_blockResult v rt.threads b

/-- Two outcomes that both report what kept the blocks from being read. -/
theorem agree_of_unread {failure : Failure} (h : readBlocks U srv p = .error failure)
    (n n' : Nat) : Agree U srv p (.error ⟨failure, n⟩) (.error ⟨failure, n'⟩) := by
  refine ⟨iff_of_false ?_ ?_, ?_, ?_, ?_⟩
  · rintro ⟨out, hout⟩
    cases hout
  · rintro ⟨out, hout⟩
    cases hout
  · intro out out' hout
    cases hout
  · rintro out (hout | hout) <;> cases hout
  · intro failure' h'
    cases h.symm.trans h'
    exact ⟨⟨n, rfl⟩, ⟨n', rfl⟩⟩

/-- Every interleaving agrees with the scan that leaves the order to its runtime. -/
theorem ScanRun.agree {parallelism : Option Nat} (h : ScanRun U parallelism rt srv p x)
    (rt' : Runtime) : Agree U srv p x (runSyncInner U rt' srv p) := by
  cases h with
  | @refused failure hopen =>
      have hread : readBlocks U srv p = .error failure := by
        rw [readBlocks, hopen]
        rfl
      rw [runSyncInner_of_refused hopen]
      exact agree_of_unread hread 0 0
  | @broken network ivks ufvk stream tr s e hopen hrun hfailed =>
      obtain ⟨blocks, rest, rfl, -, -⟩ := TryPipeline.answered_of_failed hrun hfailed
      have hread : readBlocks U srv p = .error (.error ("stream error: " ++ e)) := by
        rw [readBlocks, hopen]
        exact readStream_of_broken
      rw [runSyncInner_of_open hopen, streamBlocks, readStream_of_broken]
      exact agree_of_unread hread _ _
  | @collected network ivks ufvk stream tr s hopen hrun hended hok =>
      obtain ⟨v, rfl, rfl, horchard, rfl⟩ := view_of_open hopen
      rw [← horchard] at hrun
      obtain ⟨blocks, rfl, hs⟩ := exists_scanned_of_ended hrun hended hok
      obtain ⟨results, hs', hstream⟩ := exists_streamBlocks rt' v blocks
      have hread : readBlocks U srv p = .ok blocks := by
        rw [readBlocks, hopen]
        exact readStream_eq_ok.mpr rfl
      rw [runSyncInner_of_open hopen, ← horchard, hstream, ok_bind]
      refine ⟨finishScan_isOk_iff hs hs', fun out out' ↦ same_of_finishScan hs hs', ?_, ?_⟩
      · rintro out (hout | hout)
        · exact ascending_of_finishScan hs hout
        · exact ascending_of_finishScan hs' hout
      · intro failure h
        cases hread.symm.trans h

/-! ## Calls -/

theorem callsMade_finishScan {ufvk : U.Ufvk} {network : Network} {known : List String}
    {results : List TrialResult} :
    callsMade (finishScan U rt srv ufvk network known results) = results.length := by
  unfold finishScan
  cases scanResults U rt srv ufvk network known results <;> rfl

variable {parallelism : Option Nat} {network : Network} {ivks : PreparedIvks U} {ufvk : U.Ufvk}
  {stream : List (Except String Proto.CompactBlock)}

/-- Once the stream is open, the outcome is that of a pipeline that has ended. -/
theorem ScanRun.exists_ended (hopen : openStream U srv p = .ok ((network, ivks, ufvk), stream))
    (h : ScanRun U parallelism rt srv p x) :
    ∃ tr s, Run (ScanStep U parallelism rt.threads ivks p.orchardOnly network) (.init stream)
      tr s ∧ s.Ended ∧ callsMade x = s.done.length ∧
        ∀ e, s.failed = some e → x = .error ⟨.error ("stream error: " ++ e), s.done.length⟩ := by
  cases h with
  | refused hrefused => cases hopen.symm.trans hrefused
  | broken hopen' hrun hfailed =>
      cases hopen.symm.trans hopen'
      refine ⟨_, _, hrun, .inl (hfailed ▸ Option.some_ne_none _), rfl, fun e he ↦ ?_⟩
      cases hfailed.symm.trans he
      rfl
  | collected hopen' hrun hended hok =>
      cases hopen.symm.trans hopen'
      refine ⟨_, _, hrun, hended, ?_, fun e he ↦ ?_⟩
      · rw [callsMade_finishScan, (rt.sortByKey_perm _ _).length_eq]
      · cases hok.symm.trans he

/-- A pipeline that has ended gives an outcome. -/
theorem exists_scanRun (hopen : openStream U srv p = .ok ((network, ivks, ufvk), stream))
    {tr : List (TryPipeline.Event String Proto.CompactBlock)}
    {s : TryPipeline.State String Proto.CompactBlock TrialResult}
    (hrun : Run (ScanStep U parallelism rt.threads ivks p.orchardOnly network) (.init stream)
      tr s) (hended : s.Ended) :
    ∃ x, ScanRun U parallelism rt srv p x ∧ callsMade x = s.done.length := by
  cases hfailed : s.failed with
  | some e => exact ⟨_, .broken hopen hrun hfailed, rfl⟩
  | none =>
      refine ⟨_, .collected hopen hrun hended hfailed, ?_⟩
      rw [callsMade_finishScan, (rt.sortByKey_perm _ _).length_eq]

end Agreement

/-- A stream of blocks has no error in it. -/
theorem ok_ne_broken {blocks blocks' : List Proto.CompactBlock} {e : String}
    {rest : List (Except String Proto.CompactBlock)} :
    blocks.map .ok ≠ blocks'.map .ok ++ .error e :: rest := by
  intro h
  have hmem : Except.error e ∈ blocks.map (@Except.ok String _) := by
    rw [h]
    exact List.mem_append_right _ List.mem_cons_self
  obtain ⟨b, -, hb⟩ := List.mem_map.mp hmem
  cases hb

/-- What comes before the first error of a stream. -/
theorem before_error_inj {blocks blocks' : List Proto.CompactBlock} {e e' : String}
    {rest rest' : List (Except String Proto.CompactBlock)}
    (h : blocks.map .ok ++ .error e :: rest = blocks'.map .ok ++ .error e' :: rest') :
    blocks = blocks' ∧ e = e' := by
  induction blocks generalizing blocks' with
  | nil =>
      cases blocks' with
      | nil =>
          cases h
          exact ⟨rfl, rfl⟩
      | cons b' blocks' => cases h
  | cons b blocks ih =>
      cases blocks' with
      | nil => cases h
      | cons b' blocks' =>
          rw [List.map_cons, List.map_cons, List.cons_append, List.cons_append] at h
          obtain ⟨hb, htail⟩ := List.cons.inj h
          cases hb
          obtain ⟨rfl, rfl⟩ := ih htail
          exact ⟨rfl, rfl⟩

/-! ## Any order of steps -/

/-- Whatever order the blocks complete in, the pipeline of a scan has at most `pipeline_depth`
of them in flight and is never more than that ahead of its `on_block_done` calls; it does not
get stuck.  When the stream is read to its end each block is called for once, and when it breaks
off the scan fails with its first error, less than `pipeline_depth` calls short of the blocks
received. -/
theorem scan_pipelined (U : NoteCrypto) (parallelism : Option Nat) (rt : Runtime) (srv : Server)
    (p : SyncParams) (network : Network) (ivks : PreparedIvks U) (ufvk : U.Ufvk)
    (stream : List (Except String Proto.CompactBlock))
    (hopen : openStream U srv p = .ok ((network, ivks, ufvk), stream)) :
    (∀ tr s, Run (ScanStep U parallelism rt.threads ivks p.orchardOnly network) (.init stream)
        tr s →
      s.running.length ≤ pipelineDepth parallelism ∧ pipelineDepth parallelism ≤ 16 ∧
      tr.length ≤ 2 * stream.length ∧
      (∃ received : List Proto.CompactBlock,
        stream = received.map .ok ++ (s.failed.map .error).toList ++ s.waiting ∧
        s.done.Subperm
          (received.map (processCompactBlock U rt.threads ivks p.orchardOnly network)) ∧
        received.length ≤ s.done.length + pipelineDepth parallelism) ∧
      ∃ tr' s' x, Run (ScanStep U parallelism rt.threads ivks p.orchardOnly network) s tr' s' ∧
        s'.Ended ∧ ScanRun U parallelism rt srv p x ∧ callsMade x = s'.done.length) ∧
    ∀ x, ScanRun U parallelism rt srv p x →
      (∀ blocks : List Proto.CompactBlock, stream = blocks.map .ok →
        callsMade x = blocks.length) ∧
      ∀ (blocks : List Proto.CompactBlock) (e : String)
        (rest : List (Except String Proto.CompactBlock)),
        stream = blocks.map .ok ++ .error e :: rest →
          x = .error ⟨.error ("stream error: " ++ e), callsMade x⟩ ∧
          callsMade x ≤ blocks.length ∧
          blocks.length < callsMade x + pipelineDepth parallelism := by
  obtain ⟨hdepth, hdepth'⟩ := pipelineDepth_bounds parallelism
  refine ⟨fun tr s hrun ↦ ⟨TryPipeline.running_le hrun, hdepth', ?_, ?_, ?_⟩,
    fun x hx ↦ ⟨?_, ?_⟩⟩
  · exact (Nat.le_add_right _ _).trans (TryPipeline.length_run_le hrun)
  · exact TryPipeline.exists_taken hrun
  · obtain ⟨tr', s', hrun', hended⟩ :=
      TryPipeline.exists_ended (Nat.lt_of_lt_of_le Nat.zero_lt_two hdepth) _ s
    obtain ⟨x, hx, hcalls⟩ := exists_scanRun hopen (hrun.trans hrun') hended
    exact ⟨tr', s', x, hrun', hended, hx, hcalls⟩
  · rintro blocks rfl
    obtain ⟨tr, s, hrun, hended, hcalls, -⟩ := hx.exists_ended hopen
    cases hfailed : s.failed with
    | some e =>
        obtain ⟨blocks', rest, hstream, -, -⟩ := TryPipeline.answered_of_failed hrun hfailed
        exact absurd hstream ok_ne_broken
    | none =>
        obtain ⟨blocks', hstream, hperm⟩ := TryPipeline.perm_of_ended hrun hended hfailed
        have hlen := congrArg List.length hstream
        rw [List.length_map, List.length_map] at hlen
        rw [hcalls, hperm.length_eq, List.length_map, hlen]
  · rintro blocks e rest rfl
    obtain ⟨tr, s, hrun, hended, hcalls, hx'⟩ := hx.exists_ended hopen
    cases hfailed : s.failed with
    | none =>
        obtain ⟨blocks', hstream, -⟩ := TryPipeline.perm_of_ended hrun hended hfailed
        exact absurd hstream.symm ok_ne_broken
    | some e' =>
        obtain ⟨blocks', rest', hstream, hsub, hroom⟩ :=
          TryPipeline.answered_of_failed hrun hfailed
        obtain ⟨rfl, rfl⟩ := before_error_inj hstream
        rw [hcalls]
        refine ⟨hx' _ hfailed, ?_, hroom⟩
        have hlen := hsub.length_le
        rwa [List.length_map] at hlen

/-- The order of completion does not change what a scan returns: every interleaving agrees with
`runSyncInner` under every runtime, and any two interleavings agree with each other, whatever
their pipeline depths. -/
theorem scanRun_agrees (U : NoteCrypto) (srv : Server) (p : SyncParams)
    (parallelism : Option Nat) (rt : Runtime) (x : Except ScanFailure ScanOutput)
    (h : ScanRun U parallelism rt srv p x) :
    (∀ rt' : Runtime, Agree U srv p x (runSyncInner U rt' srv p)) ∧
    ∀ parallelism' rt' y, ScanRun U parallelism' rt' srv p y → Agree U srv p x y := by
  refine ⟨h.agree, fun parallelism' rt' y h' ↦ ?_⟩
  exact (h.agree rt).trans (h'.agree rt).symm

/-! ## Two blocks out of order -/

section Sample

/-- Trial decryption of the small chain's blocks, on one thread. -/
abbrev sampleScanStep := ScanStep sampleCrypto none 1 (prepareIvksOf sampleCrypto ()) false
  .testNetwork

/-- The small chain's server, whose stream breaks off after both blocks. -/
def resetServer : Server :=
  { sampleServer with getBlockRange _ _ := .ok (sampleBlocks.map .ok ++ [.error "reset"]) }

/-- What the scan reports then. -/
def resetFailure (calls : Nat) : Except ScanFailure ScanOutput :=
  .error ⟨.error ("stream error: " ++ "reset"), calls⟩

/-- Both blocks are in flight when the stream breaks off, and the second one has completed. -/
theorem scanRun_reset :
    ScanRun sampleCrypto none sampleRuntime resetServer (sampleParams 1 2) (resetFailure 1) := by
  have hopen : openStream sampleCrypto resetServer (sampleParams 1 2) =
      .ok ((.testNetwork, prepareIvksOf sampleCrypto (), ()),
        sampleBlocks.map .ok ++ [.error "reset"]) := rfl
  have hrun : Run sampleScanStep (.init (sampleBlocks.map .ok ++ [.error "reset"])) _
      ⟨[], [], [sampleView.blockResult ⟨2, [2], 20, [sampleTx 2 7 0], some ⟨2, 0⟩⟩],
        some "reset"⟩ :=
    (((Run.nil.snoc (.start (by decide))).snoc (.start (by decide))).snoc (.complete [_])).snoc
      (.fail (by decide))
  exact @ScanRun.broken sampleCrypto none sampleRuntime resetServer (sampleParams 1 2)
    .testNetwork _ () _ _ _ "reset" hopen hrun rfl

theorem scan_pipelined_reset :
    callsMade (resetFailure 1) ≤ 2 ∧ 2 < callsMade (resetFailure 1) + pipelineDepth none := by
  obtain ⟨-, hcalls⟩ := scan_pipelined sampleCrypto none sampleRuntime resetServer
    (sampleParams 1 2) .testNetwork (prepareIvksOf sampleCrypto ()) ()
    (sampleBlocks.map .ok ++ [.error "reset"]) rfl
  exact ((hcalls _ scanRun_reset).2 sampleBlocks "reset" [] rfl).2

/-- The results of the small chain, completed last block first. -/
def reversedOutcome : Except ScanFailure ScanOutput :=
  finishScan sampleCrypto sampleRuntime sampleServer () .testNetwork [] (sampleRuntime.sortByKey
    TrialResult.height (sampleBlocks.map sampleView.blockResult).reverse)

theorem scanRun_reversed : ScanRun sampleCrypto none sampleRuntime sampleServer
    (sampleParams 1 2) reversedOutcome := by
  have hopen : openStream sampleCrypto sampleServer (sampleParams 1 2) =
      .ok ((.testNetwork, prepareIvksOf sampleCrypto (), ()), sampleBlocks.map .ok) := rfl
  have hrun : Run sampleScanStep (.init (sampleBlocks.map .ok)) _
      ⟨[], [], (sampleBlocks.map sampleView.blockResult).reverse, none⟩ :=
    (((Run.nil.snoc (.start (by decide))).snoc (.start (by decide))).snoc (.complete [_])).snoc
      (.complete [])
  exact @ScanRun.collected sampleCrypto none sampleRuntime sampleServer (sampleParams 1 2)
    .testNetwork _ () _ _ _ hopen hrun (.inr ⟨rfl, rfl⟩) rfl

theorem scanRun_agrees_reversed : Agree sampleCrypto sampleServer (sampleParams 1 2)
    reversedOutcome (runSyncInner sampleCrypto sampleRuntime sampleServer (sampleParams 1 2)) :=
  (scanRun_agrees sampleCrypto sampleServer (sampleParams 1 2) none sampleRuntime _
    scanRun_reversed).1 sampleRuntime

end Sample

end LedgerZcash
