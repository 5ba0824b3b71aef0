import LedgerZcash.Sync.Coverage
import LedgerZcash.Sync.Partition
import Mathlib.Data.List.TakeWhile

/-!
# What a progress bar counts

`on_block_done` is called for each block that a scan has processed, and a scan that fails
half-way has made its calls by then.  The halves that it is split into are scanned from their
first block, so that its blocks are counted once more.  Over a run that returns a result the
count is right exactly when no scan that failed had processed a block, as long as the size of
the range fits a `u32` (`countedOnce_iff`).
-/

namespace LedgerZcash

open Hex Collect

/-! ## The calls of a run -/

/-- The heights of the blocks that a server streams before it breaks off. -/
def receivedHeights (srv : Server) (s e : Nat) : List Nat :=
  match srv.getBlockRange s e with
  | .ok stream => (stream.takeWhile fun item ↦ item.isOk).filterMap fun item ↦
      item.toOption.map fun b ↦ b.height
  | .error _ => []

/-- How many blocks of a range a scan has processed when it ends, by what the server answers:
all of them, or those that were finished when the stream broke off. -/
def blocksProcessed (rt : Runtime) (srv : Server) (s e : Nat) : Nat :=
  match srv.connect, srv.getBlockRange s e with
  | .ok (), .ok stream =>
      let received := (stream.takeWhile fun item ↦ item.isOk).length
      if received = stream.length then received else rt.finished received
  | _, _ => 0

/-- The number of `on_block_done` calls of a scan. -/
def callsMade : Except ScanFailure ScanOutput → Nat
  | .ok out => out.blocksDone
  | .error err => err.blocksDone

/-- The calls of the `x.2`-th scan are for these heights, in order: some of the blocks it
received, as many as it has processed. -/
def CallsOf (srvs : Nat → Server) (x : Attempt × Nat) (heights : List Nat) : Prop :=
  heights.Subperm (receivedHeights (srvs x.2) x.1.start.toNat x.1.stop.toNat) ∧
    heights.length = callsMade x.1.outcome

/-- The calls of a whole run: those of its scans, one after the other. -/
def RunCalls (srvs : Nat → Server) (r : RetryRun) (calls : List Nat) : Prop :=
  ∃ parts, List.Forall₂ (CallsOf srvs) r.scans.zipIdx parts ∧ calls = parts.flatten

/-- One call for each height of the range, and as many as there were blocks scanned. -/
structure CountedOnce (p : SyncParams) (res : SyncResult) (calls : List Nat) : Prop where
  once : calls.Perm (List.range' p.startHeight.toNat (p.endHeight.toNat + 1 - p.startHeight.toNat))
  scanned : calls.length = res.blocksScanned
  bounded : calls.length ≤ p.endHeight.toNat - p.startHeight.toNat + 1

/-! ## One scan -/

section Scan

variable {U : NoteCrypto} {rt : Runtime} {srv : Server} {p : SyncParams}

theorem length_receivedHeights_aux (stream : List (Except String Proto.CompactBlock)) :
    ((stream.takeWhile fun item ↦ item.isOk).filterMap fun item ↦
      item.toOption.map fun b ↦ b.height).length =
        (stream.takeWhile fun item ↦ item.isOk).length := by
  induction stream with
  | nil => rfl
  | cons item stream ih =>
      cases item with
      | error e => rfl
      | ok b => simpa [Except.isOk, Except.toBool, Except.toOption] using ih

/-- No scan processes more blocks than it received. -/
theorem blocksProcessed_le (rt : Runtime) (srv : Server) (s e : Nat) :
    blocksProcessed rt srv s e ≤ (receivedHeights srv s e).length := by
  unfold blocksProcessed receivedHeights
  cases srv.connect with
  | error err => exact Nat.zero_le _
  | ok u =>
      cases srv.getBlockRange s e with
      | error err => exact Nat.zero_le _
      | ok stream =>
          dsimp only
          rw [length_receivedHeights_aux]
          split
          · exact le_rfl
          · exact rt.finished_le _

/-- A stream without an error item is read to its end. -/
theorem takeWhile_isOk_map (blocks : List Proto.CompactBlock) :
    (List.takeWhile (fun item : Except String Proto.CompactBlock ↦ item.isOk) (blocks.map .ok)) =
      blocks.map .ok := by
  rw [List.takeWhile_eq_self_iff]
  intro item hitem
  obtain ⟨b, -, rfl⟩ := List.mem_map.mp hitem
  rfl

/-- Only such a stream is. -/
theorem exists_blocks_of_length {stream : List (Except String Proto.CompactBlock)}
    (h : (stream.takeWhile fun item ↦ item.isOk).length = stream.length) :
    ∃ blocks : List Proto.CompactBlock, stream = blocks.map .ok := by
  have hall := List.takeWhile_eq_self_iff.mp ((List.takeWhile_prefix _).eq_of_length h)
  clear h
  induction stream with
  | nil => exact ⟨[], rfl⟩
  | cons item stream ih =>
      obtain ⟨hitem, hstream⟩ := List.forall_mem_cons.mp hall
      obtain ⟨blocks, rfl⟩ := ih hstream
      cases item with
      | error e => cases hitem
      | ok b => exact ⟨b :: blocks, rfl⟩

theorem receivedHeights_of_ok {s e : Nat} {blocks : List Proto.CompactBlock}
    (h : srv.getBlockRange s e = .ok (blocks.map .ok)) :
    receivedHeights srv s e = blocks.map fun b ↦ b.height := by
  rw [receivedHeights, h]
  dsimp only
  rw [takeWhile_isOk_map, List.filterMap_map]
  exact congrFun List.filterMap_eq_map _

/-- A stream that is read to its end gives a result for each block. -/
theorem streamBlocks_of_blocks (rt : Runtime) (ivks : PreparedIvks U) (network : Network)
    (orchardOnly : Bool) (blocks : List Proto.CompactBlock) :
    ∃ results, streamBlocks U rt network ivks orchardOnly (blocks.map .ok) = .ok results ∧
      results.length = blocks.length := by
  have hread : readStream (fun e ↦ "stream error: " ++ e) (blocks.map .ok) = .ok blocks :=
    readStream_eq_ok.mpr rfl
  refine ⟨rt.sortByKey TrialResult.height (rt.shuffle
    (blocks.map (processCompactBlock U rt.threads ivks orchardOnly network))), ?_, ?_⟩
  · rw [streamBlocks, hread]
    rfl
  · rw [(rt.sortByKey_perm _ _).length_eq, (rt.shuffle_perm _).length_eq, List.length_map]

/-- A stream that breaks off fails the scan after the blocks that were finished by then. -/
theorem streamBlocks_of_broken (rt : Runtime) (ivks : PreparedIvks U) (network : Network)
    (orchardOnly : Bool) {stream : List (Except String Proto.CompactBlock)}
    (h : (stream.takeWhile fun item ↦ item.isOk).length ≠ stream.length) :
    ∃ failure, streamBlocks U rt network ivks orchardOnly stream =
      .error ⟨failure, rt.finished (stream.takeWhile fun item ↦ item.isOk).length⟩ := by
  unfold streamBlocks
  cases hread : readStream (fun e ↦ "stream error: " ++ e) stream with
  | error failure => exact ⟨failure, rfl⟩
  | ok blocks =>
      obtain rfl := readStream_eq_ok.mp hread
      exact absurd (congrArg List.length (takeWhile_isOk_map blocks)) h

/-- When the keys parse, a scan makes one call for each block it has processed. -/
theorem callsMade_runSyncInner {keys : Network × PreparedIvks U × U.Ufvk}
    (hkeys : parseSyncKeys U p.network p.viewingKey = .ok keys) :
    callsMade (runSyncInner U rt srv p) =
      blocksProcessed rt srv p.startHeight.toNat p.endHeight.toNat := by
  obtain ⟨network, ivks, ufvk⟩ := keys
  unfold runSyncInner blocksProcessed
  rw [hkeys]
  cases srv.connect with
  | error err => rfl
  | ok u =>
      cases srv.getBlockRange p.startHeight.toNat p.endHeight.toNat with
      | error err => rfl
      | ok stream =>
          dsimp only [afterBlocks, orFail, Except.mapError, ok_bind]
          split
          · -- the whole stream was read
            rename_i hlen
            obtain ⟨blocks, rfl⟩ := exists_blocks_of_length hlen
            obtain ⟨results, hresults, hcount⟩ := streamBlocks_of_blocks rt ivks network
              p.orchardOnly blocks
            rw [hresults, ok_bind, takeWhile_isOk_map, List.length_map, ← hcount]
            cases scanResults U rt srv ufvk network p.knownNullifiers results <;> rfl
          · rename_i hlen
            obtain ⟨failure, hfailure⟩ := streamBlocks_of_broken rt ivks network
              p.orchardOnly hlen
            rw [hfailure]
            rfl

end Scan

/-! ## The slices of a cut -/

theorem Chain.slice_append_perm (c : Chain) {s m e : Nat} (hs : s ≤ m + 1) (hm : m ≤ e) :
    (c.slice s m ++ c.slice (m + 1) e).Perm (c.slice s e) := by
  have hlow : c.slice s m = (c.slice s e).filter fun b ↦ b.height ≤ m := by
    simp only [slice, List.filter_filter]
    refine List.filter_congr fun b _ ↦ ?_
    rw [← Bool.decide_and, decide_eq_decide]
    omega
  have hhigh : c.slice (m + 1) e = (c.slice s e).filter fun b ↦ !decide (b.height ≤ m) := by
    simp only [slice, List.filter_filter]
    refine List.filter_congr fun b _ ↦ ?_
    rw [← decide_not, ← Bool.decide_and, decide_eq_decide]
    omega
  rw [hlow, hhigh]
  exact List.filter_append_perm _ _

/-- The heights of the blocks of a range. -/
def Chain.heights (c : Chain) (r : Nat × Nat) : List Nat := (c.slice r.1 r.2).map fun b ↦ b.height

/-- The ranges of a cut hold the blocks of the whole range. -/
theorem Chain.flatMap_heights_perm {c : Chain} {s e : Nat} {ranges : List (Nat × Nat)}
    (h : Bisect.Cuts s e ranges) : (ranges.flatMap c.heights).Perm (c.heights (s, e)) := by
  induction h with
  | last _ => simp
  | @cut s m e rest hs hm _ ih =>
      rw [List.flatMap_cons]
      refine (ih.append_left _).trans ?_
      rw [heights, heights, ← List.map_append]
      exact (c.slice_append_perm (by omega) hm.le).map _

/-! ## The scans of a run -/

/-- The range of a scan that succeeded. -/
def Attempt.doneRange (a : Attempt) : Option (Nat × Nat) :=
  if a.outcome.isOk then some (a.start.toNat, a.stop.toNat) else none

/-- The range of a scan that failed, with its number. -/
def Attempt.failedRange (x : Attempt × Nat) : Option (Nat × Nat × Nat) :=
  if x.1.outcome.isOk then none else some (x.2, x.1.start.toNat, x.1.stop.toNat)

section Parts

variable {c : Chain} {srvs : Nat → Server} {scans : List Attempt} {k : Nat}

/-- The scans that succeed each report the blocks of their range. -/
def ReportsRange (c : Chain) (srvs : Nat → Server) (x : Attempt × Nat) : Prop :=
  x.1.outcome.isOk = true →
    receivedHeights (srvs x.2) x.1.start.toNat x.1.stop.toNat =
        c.heights (x.1.start.toNat, x.1.stop.toNat) ∧
      callsMade x.1.outcome = (c.heights (x.1.start.toNat, x.1.stop.toNat)).length

/-- When the scans that failed made no calls, the calls of a run are for the blocks of the
ranges that were done. -/
theorem perm_of_calls {parts : List (List Nat)}
    (h : List.Forall₂ (CallsOf srvs) (scans.zipIdx k) parts)
    (hok : ∀ x ∈ scans.zipIdx k, ReportsRange c srvs x)
    (hfail : ∀ x ∈ scans.zipIdx k, x.1.outcome.isOk = false → callsMade x.1.outcome = 0) :
    parts.flatten.Perm ((scans.filterMap Attempt.doneRange).flatMap c.heights) := by
  induction scans generalizing k parts with
  | nil =>
      cases h
      exact List.Perm.refl _
  | cons a scans ih =>
      rw [List.zipIdx_cons] at h hok hfail
      obtain ⟨hok, hoks⟩ := List.forall_mem_cons.mp hok
      obtain ⟨hfail, hfails⟩ := List.forall_mem_cons.mp hfail
      rcases List.forall₂_cons_left_iff.mp h with ⟨heights, rest, ⟨hsub, hlen⟩, hrest, rfl⟩
      have ih := ih hrest hoks hfails
      rw [List.flatten_cons, List.filterMap_cons, Attempt.doneRange]
      by_cases hout : a.outcome.isOk = true
      · rw [if_pos hout]
        obtain ⟨hreceived, hcalls⟩ := hok hout
        rw [hreceived] at hsub
        exact (hsub.perm_of_length_le (hlen.trans hcalls).ge).append ih
      · rw [if_neg hout]
        have hnone := hfail (Bool.not_eq_true _ ▸ hout)
        rw [List.length_eq_zero_iff.mp (hlen.trans hnone)]
        exact ih

/-- The calls of a run: those for the ranges that were done, and those of its failed scans. -/
theorem sum_callsMade (hok : ∀ x ∈ scans.zipIdx k, ReportsRange c srvs x) :
    (scans.map fun a ↦ callsMade a.outcome).sum =
      ((scans.filterMap Attempt.doneRange).flatMap c.heights).length +
        ((scans.filter fun a ↦ !a.outcome.isOk).map fun a ↦ callsMade a.outcome).sum := by
  induction scans generalizing k with
  | nil => rfl
  | cons a scans ih =>
      rw [List.zipIdx_cons] at hok
      obtain ⟨hok, hoks⟩ := List.forall_mem_cons.mp hok
      rw [List.map_cons, List.sum_cons, ih hoks, List.filterMap_cons, Attempt.doneRange,
        List.filter_cons]
      by_cases hout : a.outcome.isOk = true
      · rw [(hok hout).2]
        simp [hout, Nat.add_assoc]
      · simp [hout, Nat.add_left_comm]

theorem length_of_calls {parts : List (List Nat)}
    (h : List.Forall₂ (CallsOf srvs) (scans.zipIdx k) parts) :
    parts.flatten.length = (scans.map fun a ↦ callsMade a.outcome).sum := by
  induction scans generalizing k parts with
  | nil =>
      cases h
      rfl
  | cons a scans ih =>
      rw [List.zipIdx_cons] at h
      rcases List.forall₂_cons_left_iff.mp h with ⟨heights, rest, ⟨-, hlen⟩, hrest, rfl⟩
      rw [List.flatten_cons, List.length_append, List.map_cons, List.sum_cons, hlen, ih hrest]

/-- When there are no more calls than blocks in the ranges that were done, the scans that
failed made none. -/
theorem silent_of_calls {parts : List (List Nat)}
    (h : List.Forall₂ (CallsOf srvs) (scans.zipIdx k) parts)
    (hok : ∀ x ∈ scans.zipIdx k, ReportsRange c srvs x)
    (hle : parts.flatten.length ≤
      ((scans.filterMap Attempt.doneRange).flatMap c.heights).length) :
    ∀ x ∈ scans.zipIdx k, x.1.outcome.isOk = false → callsMade x.1.outcome = 0 := by
  rw [length_of_calls h, sum_callsMade hok] at hle
  have hzero : ((scans.filter fun a ↦ !a.outcome.isOk).map fun a ↦ callsMade a.outcome).sum = 0 :=
    Nat.le_zero.mp (Nat.le_of_add_le_add_left hle)
  intro x hx hout
  exact List.sum_eq_zero_iff.mp hzero _ (List.mem_map_of_mem
    (List.mem_filter.mpr ⟨List.fst_mem_of_mem_zipIdx hx, by simp [hout]⟩))

/-- Some calls are possible, when no scan reports more blocks than it received. -/
theorem exists_calls {xs : List (Attempt × Nat)}
    (h : ∀ x ∈ xs, callsMade x.1.outcome ≤
      (receivedHeights (srvs x.2) x.1.start.toNat x.1.stop.toNat).length) :
    ∃ parts, List.Forall₂ (CallsOf srvs) xs parts := by
  induction xs with
  | nil => exact ⟨[], .nil⟩
  | cons x xs ih =>
      obtain ⟨hx, hxs⟩ := List.forall_mem_cons.mp h
      obtain ⟨parts, hparts⟩ := ih hxs
      refine ⟨_, .cons (b := (receivedHeights (srvs x.2) x.1.start.toNat
        x.1.stop.toNat).take (callsMade x.1.outcome)) ⟨?_, ?_⟩ hparts⟩
      · exact (List.take_sublist _ _).subperm
      · exact List.length_take_of_le hx

end Parts

/-! ## The run -/

section Loop

variable {scan : Nat → UInt32 → UInt32 → Except ScanFailure ScanOutput} {maxRetries : UInt32}
  {n : Nat} {queue : List (UInt32 × UInt32 × UInt32)} {combined res : SyncResult}

theorem doneRanges_eq (r : RetryRun) :
    r.scans.filterMap Attempt.doneRange = r.succeeded.map fun x ↦ natRange x.1 := by
  rw [RetryRun.succeeded, List.map_filterMap]
  refine List.filterMap_congr fun a _ ↦ ?_
  unfold Attempt.doneRange
  cases a.outcome <;> rfl

/-- The failed scans of a run that returns a result are those whose range was cut. -/
theorem failedRanges_eq (h : (retryLoop scan maxRetries n queue combined).result = .ok res)
    (hq : ∀ entry ∈ queue, entry.1 ≤ entry.2.1) :
    ((retryLoop scan maxRetries n queue combined).scans.zipIdx n).filterMap Attempt.failedRange =
      Bisect.cutAttempts (failsOn scan) n (queue.map entryRange) := by
  revert h hq
  refine retryLoop_rec (motive := fun n queue _ r ↦ r.result = .ok res →
    (∀ entry ∈ queue, entry.1 ≤ entry.2.1) →
      (r.scans.zipIdx n).filterMap Attempt.failedRange =
        Bisect.cutAttempts (failsOn scan) n (queue.map entryRange)) ?_ ?_ ?_ ?_ ?_ n queue combined
  · intro n combined _ _
    rw [List.map_nil, Bisect.cutAttempts]
    rfl
  · intro n s e attempts queue combined out r hout ih h hq
    have hf : failsOn scan n s.toNat e.toNat = false := by
      simp [failsOn, hout, Except.isOk, Except.toBool]
    rw [List.map_cons, entryRange, Bisect.cutAttempts, if_neg (by simp [hf]),
      ← ih h (List.forall_mem_cons.mp hq).2]
    rfl
  · intro n s e attempts queue combined err r herr _ _ hcount ih h hq
    obtain ⟨hse, hq⟩ := List.forall_mem_cons.mp hq
    obtain ⟨hlt, hmid, hmid'⟩ := toNat_mid hse hcount
    have hf : failsOn scan n s.toNat e.toNat = true := by
      simp [failsOn, herr, Except.isOk, Except.toBool]
    have hle := Bisect.le_mid hlt
    have hme := Bisect.mid_lt hlt
    have hhalves : ∀ entry ∈ (s, s + (e - s + 1) / 2 - 1, attempts + 1) ::
        (s + (e - s + 1) / 2 - 1 + 1, e, attempts + 1) :: queue, entry.1 ≤ entry.2.1 := by
      simp only [List.forall_mem_cons]
      refine ⟨?_, ?_, hq⟩
      · rw [UInt32.le_iff_toNat_le, hmid]
        exact hle
      · rw [UInt32.le_iff_toNat_le, hmid']
        exact hme
    have ih := ih h hhalves
    simp only [List.map_cons, entryRange, hmid, hmid'] at ih
    rw [List.map_cons, entryRange, Bisect.cutAttempts, if_pos ⟨hf, hlt⟩, ← ih]
    rfl
  · intro n s e attempts queue combined err _ _ _ _ h
    cases h
  · intro n s e attempts queue combined err _ _ h
    cases h

end Loop

section Run

variable {U : NoteCrypto} {rts : Nat → Runtime} {srvs : Nat → Server} {base : Server}
  {p : SyncParams} {c : Chain} {res : SyncResult}

/-- The scans that fail before a run returns a result, by their number and range. -/
def brokenScans (U : NoteCrypto) (rts : Nat → Runtime) (srvs : Nat → Server) (p : SyncParams) :
    List (Nat × Nat × Nat) :=
  Bisect.cutAttempts (failsOn (scanOf U rts srvs p)) 0
    [(p.startHeight.toNat, p.endHeight.toNat)]

/-- What a server that follows the chain streams to its end is the slice of the chain. -/
theorem Chain.Serves.eq_slice (hserves : c.Serves base) {srv : Server} (hf : srv.Follows base)
    {s e : Nat} {blocks : List Proto.CompactBlock}
    (h : srv.getBlockRange s e = .ok (blocks.map .ok)) : blocks = c.slice s e :=
  List.map_injective_iff.mpr (fun _ _ ↦ Except.ok.inj)
    (Except.ok.inj ((hf.getBlockRange s e blocks h).symm.trans (hserves s e)))

theorem reportsRange_of_scan (hserves : c.Serves base) (hf : ∀ n, (srvs n).Follows base)
    {x : Attempt × Nat} (hx : x.1.outcome = scanOf U rts srvs p x.2 x.1.start x.1.stop) :
    ReportsRange c srvs x := by
  intro hout
  obtain ⟨out, hok⟩ := exists_ok_of_isOk hout
  obtain ⟨v, blocks, results, -, hb, -, -, -, hdone⟩ := runSyncInner_eq_ok (hx.symm.trans hok)
  have hreceived : receivedHeights (srvs x.2) x.1.start.toNat x.1.stop.toNat =
      blocks.map fun b ↦ b.height := receivedHeights_of_ok hb
  rw [hreceived, hok, callsMade, hdone, hserves.eq_slice (hf x.2) hb, Chain.heights]
  exact ⟨rfl, (List.length_map _).symm⟩

/-- A run that returns a result has read its keys. -/
theorem runSync_keys (hle : p.startHeight ≤ p.endHeight)
    (h : (runSync U rts srvs p).result = .ok res) :
    ∃ keys, parseSyncKeys U p.network p.viewingKey = .ok keys := by
  obtain ⟨outs, hscan, hranges, -, -⟩ := runSync_eq_ok hle h
  have hne : outs ≠ [] := by
    rintro rfl
    exact (show Bisect.Cuts _ _ (cutRanges U rts srvs p) from cuts_cutRanges hle).ne_nil
      hranges.symm
  obtain ⟨x, hx⟩ := List.exists_mem_of_ne_nil outs hne
  obtain ⟨m, hm⟩ := hscan x hx
  obtain ⟨keys, hkeys, -⟩ := bind_eq_ok.mp hm
  exact ⟨keys, afterBlocks_eq_ok.mp hkeys⟩

theorem runSync_outcome (h : (runSync U rts srvs p).result = .ok res) {x : Attempt × Nat}
    (hx : x ∈ (runSync U rts srvs p).scans.zipIdx) :
    x.1.outcome = scanOf U rts srvs p x.2 x.1.start x.1.stop := by
  obtain ⟨maxRetries, heq⟩ := runSync_eq_retryLoop h
  rw [heq] at hx
  exact outcome_of_mem_zipIdx hx

/-- A scan of a run makes one call for each block it has processed. -/
theorem runSync_callsMade (hle : p.startHeight ≤ p.endHeight)
    (h : (runSync U rts srvs p).result = .ok res) {x : Attempt × Nat}
    (hx : x ∈ (runSync U rts srvs p).scans.zipIdx) :
    callsMade x.1.outcome =
      blocksProcessed (rts x.2) (srvs x.2) x.1.start.toNat x.1.stop.toNat := by
  obtain ⟨keys, hkeys⟩ := runSync_keys hle h
  rw [runSync_outcome h hx]
  exact callsMade_runSyncInner (p := p.sub x.1.start x.1.stop) hkeys

/-- A run makes some calls. -/
theorem exists_runCalls (hle : p.startHeight ≤ p.endHeight)
    (h : (runSync U rts srvs p).result = .ok res) :
    ∃ calls, RunCalls srvs (runSync U rts srvs p) calls := by
  have hcalls (x) (hx : x ∈ (runSync U rts srvs p).scans.zipIdx) :=
    (runSync_callsMade hle h hx).trans_le (blocksProcessed_le _ (srvs x.2) _ _)
  obtain ⟨parts, hparts⟩ := exists_calls hcalls
  exact ⟨_, parts, hparts, rfl⟩

/-- The failed scans of a run made no calls exactly when the server broke off before any block
was processed. -/
theorem failed_silent_iff (hle : p.startHeight ≤ p.endHeight)
    (h : (runSync U rts srvs p).result = .ok res) :
    (∀ x ∈ (runSync U rts srvs p).scans.zipIdx, x.1.outcome.isOk = false →
        callsMade x.1.outcome = 0) ↔
      ∀ x ∈ brokenScans U rts srvs p, blocksProcessed (rts x.1) (srvs x.1) x.2.1 x.2.2 = 0 := by
  have hcalls := fun x ↦ runSync_callsMade (x := x) hle h
  obtain ⟨maxRetries, heq⟩ := runSync_eq_retryLoop h
  rw [heq] at h hcalls ⊢
  have hbroken := failedRanges_eq h (List.forall_mem_singleton.mpr hle)
  rw [show brokenScans U rts srvs p = _ from hbroken.symm]
  constructor
  · intro hall y hy
    obtain ⟨x, hx, hfailed⟩ := List.mem_filterMap.mp hy
    unfold Attempt.failedRange at hfailed
    split at hfailed
    · cases hfailed
    · rename_i hout
      cases hfailed
      rw [← hcalls x hx]
      exact hall x hx (Bool.not_eq_true _ ▸ hout)
  · intro hall x hx hout
    rw [hcalls x hx]
    have hfailed : Attempt.failedRange x = some (x.2, x.1.start.toNat, x.1.stop.toNat) := by
      rw [Attempt.failedRange, if_neg (by simp [hout])]
    exact hall (x.2, x.1.start.toNat, x.1.stop.toNat)
      (List.mem_filterMap.mpr ⟨x, hx, hfailed⟩)

/-- The counter of a run over a chain is the number of blocks of its range. -/
theorem blocksScanned_eq (hserves : c.Serves base) (hf : ∀ n, (srvs n).Follows base)
    (hle : p.startHeight ≤ p.endHeight)
    (hlt : p.endHeight.toNat - p.startHeight.toNat + 1 < u32Size)
    (h : (runSync U rts srvs p).result = .ok res) :
    res.blocksScanned = (c.heights (p.startHeight.toNat, p.endHeight.toNat)).length := by
  obtain ⟨hcuts, -, -, -, hcount, -, -⟩ := run_partitions hle h
  have hin : ∀ n, (srvs n).InRange := fun n ↦ hserves.inRange (hf n)
  obtain ⟨maxRetries, heq⟩ := runSync_eq_retryLoop h
  rw [hcount hin hlt, ← (Chain.flatMap_heights_perm hcuts).length_eq, List.length_flatMap,
    List.map_map]
  rw [heq] at h hcuts ⊢
  refine congrArg List.sum (List.map_congr_left fun x hx ↦ ?_)
  obtain ⟨m, hm⟩ := (retryLoop_eq_ok h).1 x hx
  obtain ⟨v, blocks, results, -, hb, hscanned, hr, -, -⟩ := runSyncInner_eq_ok hm
  have hlen := hscanned.perm.length_eq
  have hbound := (hin m).length_le hb
  rw [List.length_map] at hlen
  have hrange := hcuts.bounds (List.mem_map_of_mem hx)
  simp only [natRange, SyncParams.sub] at hrange hbound
  rw [(scanResults_eq_ok hr).2.2.1, hlen, asU32_of_lt (by omega), hserves.eq_slice (hf m) hb]
  exact (List.length_map _).symm

/-- Over a run that returns a result on a chain that has every block of the range, the calls
are one for each height exactly when the size of the range fits a `u32` and every scan that
failed did so before it had processed a block. -/
theorem countedOnce_iff (hserves : c.Serves base) (hf : ∀ n, (srvs n).Follows base)
    (hcovers : CoversRange p (c.slice p.startHeight.toNat p.endHeight.toNat))
    (hle : p.startHeight ≤ p.endHeight) (h : (runSync U rts srvs p).result = .ok res) :
    (∀ calls, RunCalls srvs (runSync U rts srvs p) calls → CountedOnce p res calls) ↔
      p.endHeight.toNat - p.startHeight.toNat + 1 < u32Size ∧
        ∀ x ∈ brokenScans U rts srvs p,
          blocksProcessed (rts x.1) (srvs x.1) x.2.1 x.2.2 = 0 := by
  rw [← failed_silent_iff hle h]
  obtain ⟨hcuts, -, -, hcounter, -⟩ := run_partitions hle h
  have hreports : ∀ x ∈ (runSync U rts srvs p).scans.zipIdx, ReportsRange c srvs x :=
    fun x hx ↦ reportsRange_of_scan hserves hf (runSync_outcome h hx)
  have hheights : (((runSync U rts srvs p).scans.filterMap Attempt.doneRange).flatMap
      c.heights).Perm (List.range' p.startHeight.toNat
        (p.endHeight.toNat + 1 - p.startHeight.toNat)) := by
    rw [doneRanges_eq]
    exact (Chain.flatMap_heights_perm hcuts).trans hcovers
  have hsize : p.endHeight.toNat + 1 - p.startHeight.toNat =
      p.endHeight.toNat - p.startHeight.toNat + 1 := by
    have := UInt32.le_iff_toNat_le.mp hle
    omega
  constructor
  · intro hall
    obtain ⟨_, parts, hparts, rfl⟩ := exists_runCalls hle h
    obtain ⟨honce, hscanned, -⟩ := hall _ ⟨parts, hparts, rfl⟩
    constructor
    · have hlen := honce.length_eq
      rw [List.length_range', hsize, hscanned, hcounter] at hlen
      exact hlen ▸ Nat.mod_lt _ (by decide)
    · exact silent_of_calls hparts hreports (honce.trans hheights.symm).length_eq.le
  · rintro ⟨hlt, hsilent⟩ calls ⟨parts, hparts, rfl⟩
    have hperm := (perm_of_calls hparts hreports hsilent).trans hheights
    refine ⟨hperm, ?_, ?_⟩
    · rw [blocksScanned_eq hserves hf hle hlt h, hperm.length_eq]
      exact hcovers.length_eq.symm
    · rw [hperm.length_eq, List.length_range', hsize]

/-! ### A stream that breaks off -/

/-- The small chain's server, whose first stream times out after the first block. -/
def breakingServers (n : Nat) : Server :=
  if n = 0 then
    { sampleServer with
      getBlockRange _ _ := .ok ((sampleBlocks.take 1).map .ok ++ [.error "timeout"]) }
  else sampleServer

theorem breakingServers_follows (n : Nat) : (breakingServers n).Follows sampleServer := by
  unfold breakingServers
  split
  · refine ⟨fun _ ↦ rfl, fun s e blocks h ↦ ?_, fun _ _ _ h ↦ h⟩
    cases blocks with
    | nil => cases h
    | cons b blocks =>
        cases blocks with
        | nil => cases h
        | cons b' blocks => cases h
  · exact ⟨id, fun _ _ _ h ↦ h, fun _ _ _ h ↦ h⟩

theorem runSync_breaking : ((runSync sampleCrypto (fun _ ↦ sampleRuntime) breakingServers
    retryParams).result.toOption.map SyncResult.blocksScanned) = some 2 := by
  decide +kernel

theorem callsMade_breaking : ((runSync sampleCrypto (fun _ ↦ sampleRuntime) breakingServers
    retryParams).scans.map fun a ↦ callsMade a.outcome) = [1, 1, 1] := by
  decide +kernel

theorem breaking_covers : CoversRange retryParams (sampleChain.slice 1 2) := by
  unfold CoversRange
  decide

/-- Two blocks are scanned, and three calls are made. -/
theorem breaking_counts_twice :
    sampleChain.Serves sampleServer ∧ (∀ n, (breakingServers n).Follows sampleServer) ∧
      CoversRange retryParams (sampleChain.slice 1 2) ∧
      ∃ res calls, (runSync sampleCrypto (fun _ ↦ sampleRuntime) breakingServers
          retryParams).result = .ok res ∧
        RunCalls breakingServers (runSync sampleCrypto (fun _ ↦ sampleRuntime) breakingServers
          retryParams) calls ∧
        res.blocksScanned = 2 ∧ calls.length = 3 ∧ ¬ CountedOnce retryParams res calls := by
  obtain ⟨res, hres, hcount⟩ := Option.map_eq_some_iff.mp runSync_breaking
  have hok := toOption_eq_some.mp hres
  obtain ⟨_, parts, hparts, rfl⟩ := exists_runCalls (by decide) hok
  have hlen : parts.flatten.length = 3 := by
    rw [length_of_calls hparts, callsMade_breaking]
    rfl
  refine ⟨fun _ _ ↦ rfl, breakingServers_follows, breaking_covers, res, _, hok,
    ⟨parts, hparts, rfl⟩, hcount, hlen, fun h ↦ ?_⟩
  exact absurd (h.scanned.symm.trans hlen) (by rw [hcount]; decide)

/-- The equivalence at the failing input: its first scan had processed a block. -/
theorem countedOnce_iff_breaking :
    ∃ res, (runSync sampleCrypto (fun _ ↦ sampleRuntime) breakingServers retryParams).result =
        .ok res ∧
      ((∀ calls, RunCalls breakingServers (runSync sampleCrypto (fun _ ↦ sampleRuntime)
          breakingServers retryParams) calls → CountedOnce retryParams res calls) ↔
        2 < u32Size ∧ ∀ x ∈ brokenScans sampleCrypto (fun _ ↦ sampleRuntime) breakingServers
          retryParams, blocksProcessed sampleRuntime (breakingServers x.1) x.2.1 x.2.2 = 0) := by
  obtain ⟨res, hres, -⟩ := Option.map_eq_some_iff.mp runSync_breaking
  have hok := toOption_eq_some.mp hres
  exact ⟨res, hok, countedOnce_iff
    (show sampleChain.Serves sampleServer from fun _ _ ↦ rfl) breakingServers_follows
    breaking_covers (by decide) hok⟩

end Run

end LedgerZcash
