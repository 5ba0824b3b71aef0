import LedgerZcash.Sync.Splits

/-!
# A retried run as a partition

The ranges that a run scanned with success cut the requested range, in the order they were
scanned; the answer is put together from theirs, and the `on_transaction` calls of the whole
run are its transactions, once each and in order.  The calls of a scan are given a trace of
their own (`emissions`), which a scan that fails has as well: Phase 6 runs before the scan
returns, so that it makes none has to be shown.
-/

namespace LedgerZcash

open Hex Collect

/-! ## The calls of one scan -/

section Emissions

variable (U : NoteCrypto) (rt : Runtime) (srv : Server)

/-- Phases 2 to 5: the flagged transactions. -/
def flaggedTransactions (ufvk : U.Ufvk) (network : Network) (knownNullifiers : List String)
    (results : List TrialResult) : Except Failure (List ShieldedTransaction) := do
  let known ← decodeKnownNullifiers knownNullifiers
  let matched ← collectM (fetchOf U srv ufvk network) (phase2Targets results)
  let ours := known ++ matched.flatMap Prod.snd
  let found ← phase4 U rt srv ufvk network ours results (matched.map Prod.fst)
  phase5 (spentIn ours TrialResult.txNullifiers results)
    (spentIn ours TrialResult.txIronwoodNullifiers results) found

/-- Phase 6: the `on_transaction` calls of one scan, in order, whether or not it goes on to
return a result. -/
def emissions (p : SyncParams) : List ShieldedTransaction :=
  let flagged : Except ScanFailure (List ShieldedTransaction) := do
    let (network, ivks, ufvk) ← afterBlocks 0 (parseSyncKeys U p.network p.viewingKey)
    afterBlocks 0 (orFail srv.connect id)
    let stream ← afterBlocks 0 (orFail (srv.getBlockRange p.startHeight.toNat p.endHeight.toNat)
      fun e ↦ "GetBlockRange failed: " ++ e)
    let results ← streamBlocks U rt network ivks p.orchardOnly stream
    afterBlocks results.length
      (flaggedTransactions U rt srv ufvk network p.knownNullifiers results)
  flagged.toOption.getD []

variable {U rt srv}

/-- After Phase 6 nothing can fail: the known list was decoded once before. -/
theorem scanResults_eq (ufvk : U.Ufvk) (network : Network) (known : List String)
    (results : List TrialResult) :
    (scanResults U rt srv ufvk network known results).map SyncResult.transactions =
      flaggedTransactions U rt srv ufvk network known results := by
  unfold scanResults flaggedTransactions
  cases hk : decodeKnownNullifiers known with
  | error e => rfl
  | ok ks =>
      simp only [bind, Except.bind]
      cases collectM (fetchOf U srv ufvk network) (phase2Targets results) with
      | error e => rfl
      | ok matched =>
          dsimp only
          cases phase4 U rt srv ufvk network (ks ++ matched.flatMap Prod.snd) results
            (matched.map Prod.fst) with
          | error e => rfl
          | ok found =>
              dsimp only
              cases phase5 (spentIn (ks ++ matched.flatMap Prod.snd) TrialResult.txNullifiers
                results) (spentIn (ks ++ matched.flatMap Prod.snd)
                  TrialResult.txIronwoodNullifiers results) found with
              | error e => rfl
              | ok txs => rfl

/-- The calls of a scan are the transactions it returns; a scan that fails makes none. -/
theorem emissions_eq (p : SyncParams) : emissions U rt srv p =
    match runSyncInner U rt srv p with
    | .ok out => out.result.transactions
    | .error _ => [] := by
  unfold emissions runSyncInner
  cases afterBlocks 0 (parseSyncKeys U p.network p.viewingKey) with
  | error e => rfl
  | ok keys =>
      obtain ⟨network, ivks, ufvk⟩ := keys
      simp only [bind, Except.bind]
      cases afterBlocks 0 (orFail srv.connect id) with
      | error e => rfl
      | ok _ =>
          dsimp only
          cases afterBlocks 0 (orFail (srv.getBlockRange p.startHeight.toNat p.endHeight.toNat)
            fun e ↦ "GetBlockRange failed: " ++ e) with
          | error e => rfl
          | ok stream =>
              dsimp only
              cases streamBlocks U rt network ivks p.orchardOnly stream with
              | error e => rfl
              | ok results =>
                  dsimp only
                  rw [← scanResults_eq]
                  cases scanResults U rt srv ufvk network p.knownNullifiers results with
                  | error e => rfl
                  | ok res => rfl

theorem emissions_of_ok {p : SyncParams} {out : ScanOutput}
    (h : runSyncInner U rt srv p = .ok out) : emissions U rt srv p = out.result.transactions := by
  rw [emissions_eq, h]

theorem emissions_of_error {p : SyncParams} {err : ScanFailure}
    (h : runSyncInner U rt srv p = .error err) : emissions U rt srv p = [] := by
  rw [emissions_eq, h]

end Emissions

/-! ## The loop -/

section Loop

variable {scan : Nat → UInt32 → UInt32 → Except ScanFailure ScanOutput} {maxRetries : UInt32}
  {n : Nat} {queue : List (UInt32 × UInt32 × UInt32)} {combined res : SyncResult}

/-- The scans of a run, numbered from `n`, are those that the loop was given. -/
theorem outcome_of_mem_zipIdx {a : Attempt} {m : Nat}
    (h : (a, m) ∈ (retryLoop scan maxRetries n queue combined).scans.zipIdx n) :
    a.outcome = scan m a.start a.stop := by
  revert h
  refine retryLoop_rec (motive := fun n _ _ r ↦ (a, m) ∈ r.scans.zipIdx n →
    a.outcome = scan m a.start a.stop) ?_ ?_ ?_ ?_ ?_ n queue combined
  · intro n combined h
    cases h
  · intro n s e attempts queue combined out r hout ih h
    rcases List.mem_cons.mp h with h | h
    · cases h
      exact hout.symm
    · exact ih h
  · intro n s e attempts queue combined err r herr _ _ _ ih h
    rcases List.mem_cons.mp h with h | h
    · cases h
      exact herr.symm
    · exact ih h
  · intro n s e attempts queue combined err herr _ _ _ h
    cases List.mem_singleton.mp h
    exact herr.symm
  · intro n s e attempts queue combined err herr _ h
    cases List.mem_singleton.mp h
    exact herr.symm

/-- The counter adds up those of the successful scans, as a `u32`. -/
theorem blocksScanned_of_ok (h : (retryLoop scan maxRetries n queue combined).result = .ok res)
    (hc : combined.blocksScanned < u32Size) :
    res.blocksScanned = asU32 (combined.blocksScanned +
      ((retryLoop scan maxRetries n queue combined).succeeded.map
        fun x ↦ x.2.result.blocksScanned).sum) := by
  refine retryLoop_induction (motive := fun _ _ combined outs ↦
    combined.blocksScanned < u32Size → res.blocksScanned =
      asU32 (combined.blocksScanned + (outs.map fun x ↦ x.2.result.blocksScanned).sum))
    ?_ ?_ ?_ h hc
  · intro n hres
    simp [asU32_of_lt hres]
  · intro n s e attempts queue combined out outs _ ih _
    rw [ih (Nat.mod_lt _ (by decide)), SyncResult.extend, List.map_cons, List.sum_cons,
      ← Nat.add_assoc]
    exact Nat.mod_add_mod _ _ _
  · intro n s e attempts queue combined err outs _ _ _ ih hc
    exact ih hc

/-- The calls of a run that returns a result are the transactions of its successful scans. -/
theorem flatMap_emissions {emits : Nat → Attempt → List ShieldedTransaction}
    (hok : ∀ m a out, a.outcome = scan m a.start a.stop → a.outcome = .ok out →
      emits m a = out.result.transactions)
    (herror : ∀ m a err, a.outcome = scan m a.start a.stop → a.outcome = .error err →
      emits m a = [])
    (h : (retryLoop scan maxRetries n queue combined).result = .ok res) :
    ((retryLoop scan maxRetries n queue combined).scans.zipIdx n).flatMap
        (fun x ↦ emits x.2 x.1) =
      (retryLoop scan maxRetries n queue combined).succeeded.flatMap
        fun x ↦ x.2.result.transactions := by
  revert h
  refine retryLoop_rec (motive := fun n _ _ r ↦ r.result = .ok res →
    (r.scans.zipIdx n).flatMap (fun x ↦ emits x.2 x.1) =
      r.succeeded.flatMap fun x ↦ x.2.result.transactions) ?_ ?_ ?_ ?_ ?_ n queue combined
  · intro n combined _
    rfl
  · intro n s e attempts queue combined out r hout ih h
    rw [RetryRun.scans_after, List.zipIdx_cons, List.flatMap_cons, ih h,
      hok n _ out hout.symm rfl, RetryRun.succeeded_after_ok, List.flatMap_cons]
  · intro n s e attempts queue combined err r herr _ _ _ ih h
    rw [RetryRun.scans_after, List.zipIdx_cons, List.flatMap_cons, ih h,
      herror n _ err herr.symm rfl, RetryRun.succeeded_after_error, List.nil_append]
  · intro n s e attempts queue combined err _ _ _ _ h
    cases h
  · intro n s e attempts queue combined err _ _ h
    cases h

end Loop

/-! ## The run -/

section Run

variable {U : NoteCrypto} {rts : Nat → Runtime} {srvs : Nat → Server} {p : SyncParams}
  {res : SyncResult}

/-- The `n`-th scan of a run. -/
def scanOf (U : NoteCrypto) (rts : Nat → Runtime) (srvs : Nat → Server) (p : SyncParams)
    (n : Nat) (s e : UInt32) : Except ScanFailure ScanOutput :=
  runSyncInner U (rts n) (srvs n) (p.sub s e)

theorem emptyResult_extend {r : SyncResult} (h : r.blocksScanned < u32Size) :
    emptyResult.extend r = r := by
  simp [SyncResult.extend, emptyResult, asU32_of_lt h]

theorem blocksScanned_lt {rt : Runtime} {srv : Server} {out : ScanOutput}
    (h : runSyncInner U rt srv p = .ok out) : out.result.blocksScanned < u32Size := by
  obtain ⟨v, blocks, results, -, -, -, hr, -, -⟩ := runSyncInner_eq_ok h
  rw [(scanResults_eq_ok hr).2.2.1]
  exact Nat.mod_lt _ (by decide)

/-- Without a retry budget, too, a run that returns a result is one of the loop. -/
theorem runSync_eq_retryLoop (h : (runSync U rts srvs p).result = .ok res) :
    ∃ maxRetries, runSync U rts srvs p = retryLoop (scanOf U rts srvs p) maxRetries 0
      [(p.startHeight, p.endHeight, 0)] emptyResult := by
  refine ⟨p.maxRetries.getD 0, ?_⟩
  unfold runSync at h ⊢
  dsimp only at h ⊢
  split at h
  · rename_i hzero
    rw [if_pos hzero, retryLoop]
    cases hout : runSyncInner U (rts 0) (srvs 0) p with
    | error err => simp [hout, Except.map, Except.mapError] at h
    | ok out =>
        have hscan : scanOf U rts srvs p 0 p.startHeight p.endHeight = .ok out := hout
        simp only [hscan, retryLoop, emptyResult_extend (blocksScanned_lt hout)]
        rfl
  · rename_i hzero
    rw [if_neg hzero]
    rfl

/-- The `on_transaction` calls of a whole run, those of failed scans included, in order. -/
def runEmissions (U : NoteCrypto) (rts : Nat → Runtime) (srvs : Nat → Server)
    (p : SyncParams) : List ShieldedTransaction :=
  (runSync U rts srvs p).scans.zipIdx.flatMap fun x ↦
    emissions U (rts x.2) (srvs x.2) (p.sub x.1.start x.1.stop)

/-- A stream that ends without an error holds blocks of the requested range only, and no
height twice. -/
def Server.InRange (srv : Server) : Prop :=
  ∀ s e (blocks : List Proto.CompactBlock), srv.getBlockRange s e = .ok (blocks.map .ok) →
    (∀ b ∈ blocks, s ≤ b.height ∧ b.height ≤ e) ∧ (blocks.map fun b ↦ b.height).Nodup

theorem Chain.Serves.inRange {c : Chain} {base srv : Server} (hserve : c.Serves base)
    (hf : srv.Follows base) : srv.InRange := by
  intro s e blocks h
  have hb : blocks = c.slice s e := List.map_injective_iff.mpr (fun _ _ ↦ Except.ok.inj)
    (Except.ok.inj ((hf.getBlockRange s e blocks h).symm.trans (hserve s e)))
  subst hb
  refine ⟨fun b hb ↦ (Chain.mem_slice.mp hb).2, ?_⟩
  rw [List.nodup_iff_pairwise_ne, List.pairwise_map]
  exact (c.ascending.filter _).imp fun h ↦ h.ne

/-- What such a server streams is no longer than the range. -/
theorem Server.InRange.length_le {srv : Server} (hs : srv.InRange) {s e : Nat}
    {blocks : List Proto.CompactBlock} (h : srv.getBlockRange s e = .ok (blocks.map .ok)) :
    blocks.length ≤ e - s + 1 := by
  obtain ⟨hrange, hnodup⟩ := hs s e blocks h
  have hsub : (blocks.map fun b ↦ b.height) ⊆ List.range' s (e - s + 1) := by
    intro x hx
    obtain ⟨b, hb, rfl⟩ := List.mem_map.mp hx
    have := hrange b hb
    exact List.mem_range'_1.mpr ⟨this.1, by omega⟩
  simpa using (hnodup.subperm hsub).length_le

/-- Every transaction of a scan is at a height of its range. -/
theorem mem_transactions_bounds {rt : Runtime} {srv : Server} {s e : UInt32} {out : ScanOutput}
    (hs : srv.InRange) (h : runSyncInner U rt srv (p.sub s e) = .ok out)
    {t : ShieldedTransaction} (ht : t ∈ out.result.transactions) :
    s.toNat ≤ t.blockHeight ∧ t.blockHeight ≤ e.toNat := by
  obtain ⟨v, blocks, results, hv, hb, hscanned, hr, -, -⟩ := runSyncInner_eq_ok h
  obtain ⟨l, hl, x, -, rfl⟩ := (outcome_of_scanResults hscanned hr).sound t ht
  have hrange := (hs _ _ _ hb).1 l.block (mem_located.mp hl.1).1
  have hheight : (l.report v ((v.ledger srv).spent (range blocks)
      (knownSet (p.sub s e).knownNullifiers)) x).blockHeight = asU32 l.block.height :=
    height_blockResult v l.block
  have he := e.toNat_lt
  rw [hheight, asU32_of_lt (hrange.2.trans_lt he)]
  exact hrange

/-- The outcome of a successful sub-range scan is ascending. -/
theorem transactions_ascending {rt : Runtime} {srv : Server} {out : ScanOutput}
    (h : runSyncInner U rt srv p = .ok out) :
    out.result.transactions.Pairwise fun t t' ↦ t.blockHeight ≤ t'.blockHeight := by
  obtain ⟨v, blocks, results, -, -, hscanned, hr, -, -⟩ := runSyncInner_eq_ok h
  exact (outcome_of_scanResults hscanned hr).ascending

/-- Scans of ascending ranges concatenate to an ascending list. -/
theorem concat_ascending {outs : List ((UInt32 × UInt32) × ScanOutput)}
    (hscan : ∀ x ∈ outs, ∃ m, scanOf U rts srvs p m x.1.1 x.1.2 = .ok x.2)
    (hs : ∀ n, (srvs n).InRange)
    (hranges : (outs.map fun x ↦ natRange x.1).Pairwise fun r r' ↦ r.2 < r'.1) :
    (outs.flatMap fun x ↦ x.2.result.transactions).Pairwise
      fun t t' ↦ t.blockHeight ≤ t'.blockHeight := by
  rw [List.pairwise_flatMap]
  constructor
  · intro x hx
    obtain ⟨m, hm⟩ := hscan x hx
    exact transactions_ascending hm
  · refine (List.pairwise_map.mp hranges).imp_of_mem fun {x x'} hx hx' hlt t ht t' ht' ↦ ?_
    obtain ⟨m, hm⟩ := hscan x hx
    obtain ⟨m', hm'⟩ := hscan x' hx'
    have h1 := (mem_transactions_bounds (hs m) hm ht).2
    have h2 := (mem_transactions_bounds (hs m') hm' ht').1
    exact (h1.trans hlt.le).trans h2

/-- The counters of scans that cut a range add up to no more than the range. -/
theorem sum_blocksScanned_le {outs : List ((UInt32 × UInt32) × ScanOutput)} {s e : Nat}
    (hscan : ∀ x ∈ outs, ∃ m, scanOf U rts srvs p m x.1.1 x.1.2 = .ok x.2)
    (hs : ∀ n, (srvs n).InRange) (hcuts : Bisect.Cuts s e (outs.map fun x ↦ natRange x.1)) :
    (outs.map fun x ↦ x.2.result.blocksScanned).sum ≤ e - s + 1 := by
  rw [← hcuts.sum_lengths, List.map_map]
  refine List.sum_le_sum fun x hx ↦ ?_
  obtain ⟨m, hm⟩ := hscan x hx
  obtain ⟨v, blocks, results, -, hb, hscanned, hr, -, -⟩ := runSyncInner_eq_ok hm
  have hlen := hscanned.perm.length_eq
  rw [List.length_map] at hlen
  rw [(scanResults_eq_ok hr).2.2.1, hlen]
  exact (Nat.mod_le _ _).trans ((hs m).length_le hb)

/-- The successful sub-ranges of a run partition the range in ascending order, and the
answer and the calls of the run are theirs put together. -/
theorem run_partitions (hle : p.startHeight ≤ p.endHeight)
    (h : (runSync U rts srvs p).result = .ok res) :
    Bisect.Cuts p.startHeight.toNat p.endHeight.toNat
      ((runSync U rts srvs p).succeeded.map fun x ↦ natRange x.1) ∧
    res.transactions =
      (runSync U rts srvs p).succeeded.flatMap (fun x ↦ x.2.result.transactions) ∧
    ((∀ n, (srvs n).InRange) →
      res.transactions.Pairwise fun t t' ↦ t.blockHeight ≤ t'.blockHeight) ∧
    res.blocksScanned = asU32
      ((runSync U rts srvs p).succeeded.map fun x ↦ x.2.result.blocksScanned).sum ∧
    ((∀ n, (srvs n).InRange) → p.endHeight.toNat - p.startHeight.toNat + 1 < u32Size →
      res.blocksScanned =
        ((runSync U rts srvs p).succeeded.map fun x ↦ x.2.result.blocksScanned).sum) ∧
    runEmissions U rts srvs p = res.transactions ∧
    ∀ a m, (a, m) ∈ (runSync U rts srvs p).scans.zipIdx → a.outcome.isOk = false →
      emissions U (rts m) (srvs m) (p.sub a.start a.stop) = [] := by
  obtain ⟨maxRetries, heq⟩ := runSync_eq_retryLoop h
  have hemit : ∀ m (a : Attempt) err, a.outcome = scanOf U rts srvs p m a.start a.stop →
      a.outcome = .error err → emissions U (rts m) (srvs m) (p.sub a.start a.stop) = [] :=
    fun m a err ha herr ↦ emissions_of_error (ha.symm.trans herr)
  rw [runEmissions]
  rw [heq] at h ⊢
  obtain ⟨hscan, htx, -⟩ := retryLoop_eq_ok h
  have hcuts : Bisect.Cuts p.startHeight.toNat p.endHeight.toNat
      ((retryLoop (scanOf U rts srvs p) maxRetries 0 [(p.startHeight, p.endHeight, 0)]
        emptyResult).succeeded.map fun x ↦ natRange x.1) := by
    rw [ranges_succeeded h (List.forall_mem_singleton.mpr hle),
      ← List.nil_append (Bisect.leaves _ _ _)]
    exact Bisect.cuts_leaves (.last (UInt32.le_iff_toNat_le.mp hle))
  have hblocks := blocksScanned_of_ok h (by decide)
  simp only [emptyResult, Nat.zero_add, List.nil_append] at htx hblocks
  refine ⟨hcuts, htx, fun hs ↦ ?_, hblocks, fun hs hlt ↦ ?_, ?_, ?_⟩
  · rw [htx]
    exact concat_ascending hscan hs hcuts.pairwise
  · rw [hblocks]
    exact asU32_of_lt ((sum_blocksScanned_le hscan hs hcuts).trans_lt hlt)
  · rw [htx]
    exact flatMap_emissions (fun m a out ha hout ↦ emissions_of_ok (ha.symm.trans hout)) hemit h
  · intro a m ha hout
    have houtcome := outcome_of_mem_zipIdx ha
    cases herr : a.outcome with
    | error err => exact hemit m a err houtcome herr
    | ok out => simp [herr, Except.isOk, Except.toBool] at hout

/-- The run over two blocks whose first connection times out. -/
theorem run_partitions_flaky :
    ∃ res, (runSync sampleCrypto (fun _ ↦ sampleRuntime) flakyServers retryParams).result =
        .ok res ∧
      Bisect.Cuts 1 2 ((runSync sampleCrypto (fun _ ↦ sampleRuntime) flakyServers
        retryParams).succeeded.map fun x ↦ natRange x.1) ∧
      runEmissions sampleCrypto (fun _ ↦ sampleRuntime) flakyServers retryParams =
        res.transactions := by
  obtain ⟨res, hres, -⟩ := Option.map_eq_some_iff.mp runSync_flaky
  have hres' := toOption_eq_some.mp hres
  obtain ⟨hcuts, -, -, -, -, hemit, -⟩ := run_partitions (p := retryParams) (by decide) hres'
  exact ⟨res, hres', hcuts, hemit⟩

end Run

end LedgerZcash
