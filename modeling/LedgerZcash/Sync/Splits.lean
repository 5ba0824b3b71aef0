import LedgerZcash.Sync.Chain
import LedgerZcash.Sync.Retry

/-!
# What a retry split changes

The ranges that `runSync` ends up scanning are the leaves of its failure pattern
(`ranges_succeeded`), and its answer is put together from one scan of each.  These scans
do not know of each other: a note received in one range and spent in another is not seen
as spent, and the transaction that spends it may be lost.  The answer is that of one scan
of the whole range exactly when no such pair is cut apart (`sameAnswer_iff_pairsKept`).
-/

namespace LedgerZcash

open Hex Collect

/-! ## The loop and its leaves -/

/-- The arithmetic of a split, when the range has more than one block. -/
theorem toNat_mid {s e : UInt32} (h : s ≤ e) (hcount : 1 < e - s + 1) :
    s.toNat < e.toNat ∧
      (s + (e - s + 1) / 2 - 1).toNat = Bisect.mid s.toNat e.toNat ∧
      (s + (e - s + 1) / 2 - 1 + 1).toNat = Bisect.mid s.toNat e.toNat + 1 := by
  have hle : s.toNat ≤ e.toNat := UInt32.le_iff_toNat_le.mp h
  have he := e.toNat_lt
  have hsub : (e - s).toNat = e.toNat - s.toNat := UInt32.toNat_sub_of_le _ _ h
  have hc : 1 < (e - s + 1).toNat := UInt32.lt_iff_toNat_lt.mp hcount
  have hbc : (e - s + 1).toNat = e.toNat - s.toNat + 1 := by
    rw [UInt32.toNat_add, hsub, UInt32.toNat_one] at hc ⊢
    omega
  rw [hbc] at hc
  have hhalf : ((e - s + 1) / 2).toNat = (e.toNat - s.toNat + 1) / 2 := by
    rw [UInt32.toNat_div, hbc]
    rfl
  have hsum : (s + (e - s + 1) / 2).toNat = s.toNat + (e.toNat - s.toNat + 1) / 2 := by
    rw [UInt32.toNat_add, hhalf]
    omega
  have hmid : (s + (e - s + 1) / 2 - 1).toNat = Bisect.mid s.toNat e.toNat := by
    rw [UInt32.toNat_sub_of_le, hsum]
    · rfl
    · rw [UInt32.le_iff_toNat_le, hsum, UInt32.toNat_one]
      omega
  refine ⟨by omega, hmid, ?_⟩
  have hlt := Bisect.mid_lt (s := s.toNat) (e := e.toNat) (by omega)
  rw [UInt32.toNat_add, hmid, UInt32.toNat_one]
  omega

/-- The pattern of failures: whether the `n`-th scan fails on a range. -/
def failsOn (scan : Nat → UInt32 → UInt32 → Except ScanFailure ScanOutput) (n s e : Nat) : Bool :=
  !(scan n (.ofNat s) (.ofNat e)).isOk

variable {scan : Nat → UInt32 → UInt32 → Except ScanFailure ScanOutput} {maxRetries : UInt32}
  {n : Nat} {queue : List (UInt32 × UInt32 × UInt32)} {combined res : SyncResult}

/-- A run that returns a result puts together its successful scans, in order. -/
theorem retryLoop_eq_ok (h : (retryLoop scan maxRetries n queue combined).result = .ok res) :
    (∀ x ∈ (retryLoop scan maxRetries n queue combined).succeeded,
        ∃ m, scan m x.1.1 x.1.2 = .ok x.2) ∧
      res.transactions = combined.transactions ++
        (retryLoop scan maxRetries n queue combined).succeeded.flatMap
          (fun x ↦ x.2.result.transactions) ∧
      res.spentKnownNullifiers = combined.spentKnownNullifiers ++
        (retryLoop scan maxRetries n queue combined).succeeded.flatMap
          (fun x ↦ x.2.result.spentKnownNullifiers) := by
  refine retryLoop_induction (motive := fun _ _ combined outs ↦
    (∀ x ∈ outs, ∃ m, scan m x.1.1 x.1.2 = .ok x.2) ∧
      res.transactions = combined.transactions ++ outs.flatMap (fun x ↦ x.2.result.transactions) ∧
      res.spentKnownNullifiers = combined.spentKnownNullifiers ++
        outs.flatMap (fun x ↦ x.2.result.spentKnownNullifiers)) ?_ ?_ ?_ h
  · intro n
    simp
  · rintro n s e attempts queue combined out outs hout ⟨hscan, htx, hspent⟩
    refine ⟨List.forall_mem_cons.mpr ⟨⟨n, hout⟩, hscan⟩, ?_, ?_⟩
    · rw [htx, SyncResult.extend, List.flatMap_cons, List.append_assoc]
    · rw [hspent, SyncResult.extend, List.flatMap_cons, List.append_assoc]
  · intro n s e attempts queue combined err outs _ _ _ ih
    exact ih

/-- The height range of a queue entry. -/
def entryRange (entry : UInt32 × UInt32 × UInt32) : Nat × Nat :=
  (entry.1.toNat, entry.2.1.toNat)

/-- The ranges that a run scans with success are the leaves of its failure pattern. -/
theorem ranges_succeeded (h : (retryLoop scan maxRetries n queue combined).result = .ok res)
    (hq : ∀ entry ∈ queue, entry.1 ≤ entry.2.1) :
    (retryLoop scan maxRetries n queue combined).succeeded.map (fun x ↦ natRange x.1) =
      Bisect.leaves (failsOn scan) n (queue.map entryRange) := by
  refine retryLoop_induction (motive := fun n queue _ outs ↦
    (∀ entry ∈ queue, entry.1 ≤ entry.2.1) →
      outs.map (fun x ↦ natRange x.1) = Bisect.leaves (failsOn scan) n (queue.map entryRange))
    ?_ ?_ ?_ h hq
  · intro n _
    rw [List.map_nil, List.map_nil, Bisect.leaves]
  · intro n s e attempts queue combined out outs hout ih hq
    obtain ⟨-, hq⟩ := List.forall_mem_cons.mp hq
    have hf : failsOn scan n s.toNat e.toNat = false := by
      simp [failsOn, hout, Except.isOk, Except.toBool]
    rw [List.map_cons, List.map_cons, entryRange, Bisect.leaves, if_neg (by simp [hf]), ih hq]
    rfl
  · intro n s e attempts queue combined err outs herr _ hcount ih hq
    obtain ⟨hse, hq⟩ := List.forall_mem_cons.mp hq
    obtain ⟨hlt, hmid, hmid'⟩ := toNat_mid hse hcount
    have hf : failsOn scan n s.toNat e.toNat = true := by
      simp [failsOn, herr, Except.isOk, Except.toBool]
    have hle := Bisect.le_mid hlt
    have hme := Bisect.mid_lt hlt
    rw [List.map_cons, entryRange, Bisect.leaves, if_pos ⟨hf, hlt⟩]
    refine (ih ?_).trans ?_
    · simp only [List.forall_mem_cons]
      refine ⟨?_, ?_, hq⟩
      · rw [UInt32.le_iff_toNat_le, hmid]
        exact hle
      · rw [UInt32.le_iff_toNat_le, hmid']
        exact hme
    · simp only [List.map_cons, entryRange, hmid, hmid']

/-! ## Servers that fail now and then -/

/-- Whatever the server answers without an error is what `base` answers. -/
structure Server.Follows (srv base : Server) : Prop where
  connect : srv.connect = .ok () → base.connect = .ok ()
  getBlockRange : ∀ s e (blocks : List Proto.CompactBlock),
    srv.getBlockRange s e = .ok (blocks.map .ok) → base.getBlockRange s e = .ok (blocks.map .ok)
  getTransaction : ∀ height txid raw, srv.getTransaction height txid = .ok raw →
    base.getTransaction height txid = .ok raw

section Follows

variable {U : NoteCrypto} {rt : Runtime} {srv base : Server} (hf : srv.Follows base)
include hf

theorem fetchOf_follows {ufvk : U.Ufvk} {network : Network} (a : TrialResult × String)
    (o : Option (ShieldedTransaction × List Bytes32))
    (h : fetchOf U srv ufvk network a = .ok o) : fetchOf U base ufvk network a = .ok o := by
  unfold fetchOf fetchAndDecryptTx at h ⊢
  obtain ⟨txidBytes, hid, h⟩ := bind_eq_ok.mp h
  obtain ⟨rawTx, hraw, h⟩ := bind_eq_ok.mp h
  rw [orFail_eq_ok] at hraw
  exact bind_eq_ok.mpr ⟨txidBytes, hid, bind_eq_ok.mpr
    ⟨rawTx, orFail_eq_ok.mpr (hf.getTransaction _ _ _ hraw), h⟩⟩

theorem scanResults_follows {ufvk : U.Ufvk} {network : Network} {known : List String}
    {results : List TrialResult} {res : SyncResult}
    (h : scanResults U rt srv ufvk network known results = .ok res) :
    scanResults U rt base ufvk network known results = .ok res := by
  unfold scanResults at h ⊢
  obtain ⟨ks, hks, h⟩ := bind_eq_ok.mp h
  obtain ⟨matched, hm, h⟩ := bind_eq_ok.mp h
  obtain ⟨found, hfound, h⟩ := bind_eq_ok.mp h
  refine bind_eq_ok.mpr ⟨ks, hks, bind_eq_ok.mpr
    ⟨matched, collectM_mono (fetchOf_follows hf) hm, bind_eq_ok.mpr ⟨found, ?_, h⟩⟩⟩
  unfold phase4 at hfound ⊢
  split at hfound
  · rename_i hnil
    rw [if_pos hnil]
    exact hfound
  · rename_i hnil
    rw [if_neg hnil]
    obtain ⟨spending, hs, hfound⟩ := bind_eq_ok.mp hfound
    exact bind_eq_ok.mpr ⟨spending, collectM_mono (fetchOf_follows hf) hs, hfound⟩

/-- A scan that succeeds on a server that fails now and then succeeds on the server it
follows, with the same output. -/
theorem runSyncInner_follows {p : SyncParams} {out : ScanOutput}
    (h : runSyncInner U rt srv p = .ok out) : runSyncInner U rt base p = .ok out := by
  unfold runSyncInner at h ⊢
  obtain ⟨⟨network, ivks, ufvk⟩, hkeys, h⟩ := bind_eq_ok.mp h
  obtain ⟨u, hconnect, h⟩ := bind_eq_ok.mp h
  obtain ⟨stream, hstream, h⟩ := bind_eq_ok.mp h
  obtain ⟨results, hresults, h⟩ := bind_eq_ok.mp h
  obtain ⟨result, hresult, hout⟩ := bind_eq_ok.mp h
  have hblocks : ∃ blocks : List Proto.CompactBlock, stream = blocks.map .ok := by
    obtain ⟨blocks, hb, -⟩ := bind_eq_ok.mp hresults
    rw [afterBlocks_eq_ok] at hb
    exact ⟨blocks, readStream_eq_ok.mp hb⟩
  obtain ⟨blocks, rfl⟩ := hblocks
  rw [afterBlocks_eq_ok, orFail_eq_ok] at hconnect hstream
  rw [afterBlocks_eq_ok] at hresult
  refine bind_eq_ok.mpr ⟨_, hkeys, bind_eq_ok.mpr ⟨u, ?_, bind_eq_ok.mpr ⟨_, ?_,
    bind_eq_ok.mpr ⟨results, hresults, bind_eq_ok.mpr ⟨result, ?_, hout⟩⟩⟩⟩⟩
  · exact afterBlocks_eq_ok.mpr (orFail_eq_ok.mpr (hf.connect hconnect))
  · exact afterBlocks_eq_ok.mpr (orFail_eq_ok.mpr (hf.getBlockRange _ _ _ hstream))
  · exact afterBlocks_eq_ok.mpr (scanResults_follows hf hresult)

end Follows

/-! ## Reports of a set of transactions -/

section Reports

variable {U : NoteCrypto} {srv : Server} {v : View U}

/-- What one scan of the transactions `T` that knows `K` reports. -/
def reports (srv : Server) (v : View U) (T : Set Located) (K : Set Bytes32) :
    Set ShieldedTransaction :=
  {t | ∃ l ∈ (v.ledger srv).detected T K, ∃ x, l.opened srv v = some x ∧
    t = l.report v ((v.ledger srv).spent T K) x}

theorem Outcome.mem_iff {blocks : List Proto.CompactBlock} {K : Set Bytes32} {res : SyncResult}
    (h : Outcome srv v K blocks res) (hu : UniqueTxids blocks) {t : ShieldedTransaction} :
    t ∈ res.transactions ↔ t ∈ reports srv v (range blocks) K := by
  constructor
  · exact h.sound t
  · rintro ⟨l, hl, x, hx, rfl⟩
    exact h.complete hu l hl x hx

variable {ι : Type} {R : ι → Set Located} {K : Set Bytes32}

/-- A detected transaction is one whose txid is reported. -/
theorem exists_report_iff {T : Set Located} (hid : ∀ l ∈ T, ∀ l' ∈ T, l.txid = l'.txid → l = l')
    {l : Located} (hl : l ∈ T) : l ∈ (v.ledger srv).detected T K ↔
      ∃ t ∈ reports srv v T K, t.txid = l.txid := by
  constructor
  · intro hd
    obtain ⟨x, hx⟩ := Option.isSome_iff_exists.mp hd.2.1
    exact ⟨_, ⟨l, hd, x, hx, rfl⟩, rfl⟩
  · rintro ⟨t, ⟨l', hd, x, -, rfl⟩, htxid⟩
    exact hid l' hd.1 l hl htxid ▸ hd

/-- Separate scans report together what one scan of the union reports, exactly when no
receive and spend are cut apart. -/
theorem iUnion_reports_iff (hR : ∀ i j l, l ∈ R i → l ∈ R j → i = j)
    (hid : ∀ l ∈ ⋃ i, R i, ∀ l' ∈ ⋃ i, R i, l.txid = l'.txid → l = l') :
    (⋃ i, reports srv v (R i) K) = reports srv v (⋃ i, R i) K ↔
      (v.ledger srv).SpendersKept R K ∧ (v.ledger srv).FlagsKept R K := by
  have hsub : ∀ i, R i ⊆ ⋃ j, R j := Set.subset_iUnion R
  constructor
  · intro heq
    constructor
    · rw [← Ledger.detected_iUnion_iff hR]
      refine Set.Subset.antisymm (Set.iUnion_subset fun i ↦
        Ledger.detected_mono (hsub i) subset_rfl) fun l hl ↦ ?_
      obtain ⟨t, ht, htxid⟩ := (exists_report_iff hid hl.1).mp hl
      rw [← heq] at ht
      obtain ⟨i, l', hl', x, -, rfl⟩ := Set.mem_iUnion.mp ht
      obtain rfl := hid l' (hsub i hl'.1) l hl.1 htxid
      exact Set.mem_iUnion_of_mem i hl'
    · intro i l hl p n hn hspent
      obtain ⟨x, hx⟩ := Option.isSome_iff_exists.mp hl.2.1
      have hmem : l.report v ((v.ledger srv).spent (R i) K) x ∈ ⋃ j, reports srv v (R j) K :=
        Set.mem_iUnion_of_mem i ⟨l, hl, x, hx, rfl⟩
      rw [heq] at hmem
      obtain ⟨l', hl', x', hx', hreport⟩ := hmem
      obtain rfl := hid l (hsub i hl.1) l' hl'.1 (congrArg ShieldedTransaction.txid hreport)
      cases hx.symm.trans hx'
      exact ((Located.report_eq_iff hx).mp hreport p n hn).mpr hspent
  · rintro ⟨hspenders, hflags⟩
    have hreport : ∀ i, ∀ l ∈ (v.ledger srv).detected (R i) K, ∀ x, l.opened srv v = some x →
        l.report v ((v.ledger srv).spent (R i) K) x =
          l.report v ((v.ledger srv).spent (⋃ j, R j) K) x := fun i l hl x hx ↦
      (Located.report_eq_iff hx).mpr fun p n hn ↦
        ⟨fun h ↦ Ledger.spent_mono (hsub i) subset_rfl p h, hflags i l hl p n hn⟩
    ext t
    constructor
    · intro ht
      obtain ⟨i, l, hl, x, hx, rfl⟩ := Set.mem_iUnion.mp ht
      exact ⟨l, Ledger.detected_mono (hsub i) subset_rfl hl, x, hx, hreport i l hl x hx⟩
    · rintro ⟨l, hl, x, hx, rfl⟩
      rw [← (Ledger.detected_iUnion_iff hR).mpr hspenders] at hl
      obtain ⟨i, hl⟩ := Set.mem_iUnion.mp hl
      exact Set.mem_iUnion_of_mem i ⟨l, hl, x, hx, (hreport i l hl x hx).symm⟩

end Reports

/-! ## The answer of a run -/

section Run

variable {U : NoteCrypto} {rts : Nat → Runtime} {srvs : Nat → Server} {base : Server}
  {p : SyncParams} {v : View U} {c : Chain}

/-- The ranges that the failures of the sub-range scans leave. -/
def cutRanges (U : NoteCrypto) (rts : Nat → Runtime) (srvs : Nat → Server) (p : SyncParams) :
    List (Nat × Nat) :=
  Bisect.leaves (failsOn fun n s e ↦ runSyncInner U (rts n) (srvs n) (p.sub s e)) 0
    [(p.startHeight.toNat, p.endHeight.toNat)]

theorem cuts_cutRanges (h : p.startHeight ≤ p.endHeight) :
    Bisect.Cuts p.startHeight.toNat p.endHeight.toNat (cutRanges U rts srvs p) := by
  rw [cutRanges, ← List.nil_append (Bisect.leaves _ _ _)]
  exact Bisect.cuts_leaves (.last (UInt32.le_iff_toNat_le.mp h))

/-- A first scan that succeeds leaves the range whole. -/
theorem cutRanges_of_ok {out : ScanOutput} (h : runSyncInner U (rts 0) (srvs 0) p = .ok out) :
    cutRanges U rts srvs p = [(p.startHeight.toNat, p.endHeight.toNat)] := by
  have hsub : runSyncInner U (rts 0) (srvs 0) (p.sub p.startHeight p.endHeight) = .ok out := h
  have hf : failsOn (fun n s e ↦ runSyncInner U (rts n) (srvs n) (p.sub s e)) 0
      p.startHeight.toNat p.endHeight.toNat = false := by
    simp [failsOn, hsub, Except.isOk, Except.toBool]
  rw [cutRanges, Bisect.leaves, if_neg (by simp [hf]), Bisect.leaves]

/-- A run that returns a result is put together from one scan of each of its ranges. -/
theorem runSync_eq_ok {res : SyncResult} (hle : p.startHeight ≤ p.endHeight)
    (h : (runSync U rts srvs p).result = .ok res) :
    ∃ outs : List ((UInt32 × UInt32) × ScanOutput),
      (∀ x ∈ outs, ∃ m, runSyncInner U (rts m) (srvs m) (p.sub x.1.1 x.1.2) = .ok x.2) ∧
      outs.map (fun x ↦ natRange x.1) = cutRanges U rts srvs p ∧
      res.transactions = outs.flatMap (fun x ↦ x.2.result.transactions) ∧
      res.spentKnownNullifiers = outs.flatMap (fun x ↦ x.2.result.spentKnownNullifiers) := by
  unfold runSync at h
  dsimp only at h
  split at h
  · -- a single scan
    rw [mapError_eq_ok] at h
    cases hout : runSyncInner U (rts 0) (srvs 0) p with
    | error err => simp [hout, Except.map] at h
    | ok out =>
        have hres : out.result = res := by simpa [hout, Except.map] using h
        refine ⟨[((p.startHeight, p.endHeight), out)],
          List.forall_mem_singleton.mpr ⟨0, hout⟩, (cutRanges_of_ok hout).symm, ?_, ?_⟩
        · simp [hres]
        · simp [hres]
  · obtain ⟨hscan, htx, hspent⟩ := retryLoop_eq_ok h
    exact ⟨_, hscan, ranges_succeeded h (List.forall_mem_singleton.mpr hle), htx, hspent⟩

/-- The same set of transactions, with their notes, positions and flags, and the same set
of spent known nullifiers. -/
def SameAnswer (r w : SyncResult) : Prop :=
  (∀ t, t ∈ r.transactions ↔ t ∈ w.transactions) ∧
    ∀ s, s ∈ r.spentKnownNullifiers ↔ s ∈ w.spentKnownNullifiers

/-- No receive and spend are cut apart by the ranges: a transaction that is not found on
its own and spends what the whole range tracks also spends what its own range tracks, and
a note whose nullifier the whole range tracks and reveals in the note's pool is tracked
and revealed there by its own range. -/
def PairsKept (base : Server) (v : View U) (K : Set Bytes32) (c : Chain)
    (ranges : List (Nat × Nat)) : Prop :=
  (v.ledger base).SpendersKept (fun r : {r // r ∈ ranges} ↦ range (c.slice r.1.1 r.1.2)) K ∧
    (v.ledger base).FlagsKept (fun r : {r // r ∈ ranges} ↦ range (c.slice r.1.1 r.1.2)) K

theorem iUnion_slices {s e : Nat} {ranges : List (Nat × Nat)} (h : Bisect.Cuts s e ranges) :
    ⋃ r : {r // r ∈ ranges}, range (c.slice r.1.1 r.1.2) = range (c.slice s e) := by
  ext l
  simp only [Set.mem_iUnion, Chain.mem_range_slice]
  constructor
  · rintro ⟨⟨r, hr⟩, hl, h1, h2⟩
    have hb := h.bounds hr
    exact ⟨hl, hb.1.trans h1, h2.trans hb.2.2⟩
  · rintro ⟨hl, h1, h2⟩
    obtain ⟨r, hr, h'⟩ := h.exists_mem h1 h2
    exact ⟨⟨r, hr⟩, hl, h'⟩

/-- Scans of ranges that cut a range report together what one scan of the whole range
reports exactly when the cuts keep every receive and spend together. -/
theorem mem_transactions_iff_pairsKept {K : Set Bytes32} {s e : Nat} {ranges : List (Nat × Nat)}
    (hcuts : Bisect.Cuts s e ranges) {outs : List ((UInt32 × UInt32) × ScanOutput)}
    (hpart : ∀ x ∈ outs, Outcome base v K (c.slice x.1.1.toNat x.1.2.toNat) x.2.result)
    (hranges : outs.map (fun x ↦ natRange x.1) = ranges) {whole : SyncResult}
    (hwhole : Outcome base v K (c.slice s e) whole) :
    (∀ t, t ∈ outs.flatMap (fun x ↦ x.2.result.transactions) ↔ t ∈ whole.transactions) ↔
      PairsKept base v K c ranges := by
  have htransactions : ∀ t, t ∈ outs.flatMap (fun x ↦ x.2.result.transactions) ↔
      t ∈ ⋃ r : {r // r ∈ ranges}, reports base v (range (c.slice r.1.1 r.1.2)) K := by
    intro t
    rw [List.mem_flatMap, Set.mem_iUnion, Subtype.exists]
    simp only [← hranges, List.mem_map]
    constructor
    · rintro ⟨x, hx, ht⟩
      exact ⟨_, ⟨x, hx, rfl⟩, ((hpart x hx).mem_iff (c.uniqueTxids_slice _ _)).mp ht⟩
    · rintro ⟨_, ⟨x, hx, rfl⟩, ht⟩
      exact ⟨x, hx, ((hpart x hx).mem_iff (c.uniqueTxids_slice _ _)).mpr ht⟩
  have hunion := iUnion_slices (c := c) hcuts
  have hiff := @iUnion_reports_iff _ base v _
    (fun r : {r // r ∈ ranges} ↦ range (c.slice r.1.1 r.1.2)) K ?_ ?_
  · rw [PairsKept, ← hiff, hunion, Set.ext_iff]
    refine forall_congr' fun t ↦ ?_
    rw [htransactions, hwhole.mem_iff (c.uniqueTxids_slice _ _)]
  · rintro ⟨r, hr⟩ ⟨r', hr'⟩ l hl hl'
    have h1 := (Chain.mem_range_slice.mp hl).2
    have h2 := (Chain.mem_range_slice.mp hl').2
    exact Subtype.ext (hcuts.unique hr hr' h1.1 h1.2 h2.1 h2.2)
  · rw [hunion]
    intro l hl l' hl' hid
    exact List.inj_on_of_nodup_map (c.uniqueTxids_slice _ _) hl hl' (displayHex_inj.mp hid)

/-- The spent known nullifiers do not depend on the cuts: the known list is every scan's. -/
theorem mem_spentKnown_iff {K : Set Bytes32} {s e : Nat} {ranges : List (Nat × Nat)}
    (hcuts : Bisect.Cuts s e ranges) {outs : List ((UInt32 × UInt32) × ScanOutput)}
    (hpart : ∀ x ∈ outs, Outcome base v K (c.slice x.1.1.toNat x.1.2.toNat) x.2.result)
    (hranges : outs.map (fun x ↦ natRange x.1) = ranges) {whole : SyncResult}
    (hwhole : Outcome base v K (c.slice s e) whole) (k : String) :
    k ∈ outs.flatMap (fun x ↦ x.2.result.spentKnownNullifiers) ↔
      k ∈ whole.spentKnownNullifiers := by
  rw [List.mem_flatMap, hwhole.spentKnown]
  constructor
  · rintro ⟨x, hx, hs⟩
    obtain ⟨n, hK, ⟨pool, hn⟩, rfl⟩ := ((hpart x hx).spentKnown k).mp hs
    have hb := hcuts.bounds (hranges ▸ List.mem_map_of_mem hx)
    exact ⟨n, hK, ⟨pool, Ledger.revealed_mono (Chain.range_slice_mono hb.1 hb.2.2) pool hn⟩, rfl⟩
  · rintro ⟨n, hK, ⟨pool, hn⟩, rfl⟩
    rw [← iUnion_slices (c := c) hcuts, Ledger.mem_revealed_iUnion] at hn
    obtain ⟨⟨r, hr⟩, hn⟩ := hn
    obtain ⟨x, hx, rfl⟩ := List.mem_map.mp (hranges ▸ hr)
    exact ⟨x, hx, ((hpart x hx).spentKnown _).mpr ⟨n, hK, ⟨pool, hn⟩, rfl⟩⟩

/-- A retried run answers as one scan of the whole range does exactly when its splits keep
every receive and spend together. -/
theorem sameAnswer_iff_pairsKept (hserve : c.Serves base) (hf : ∀ n, (srvs n).Follows base)
    (hv : p.view U = .ok v) (hle : p.startHeight ≤ p.endHeight) {rt : Runtime}
    {res : SyncResult} {whole : ScanOutput} (h : (runSync U rts srvs p).result = .ok res)
    (hwhole : runSyncInner U rt base { p with maxRetries := none } = .ok whole) :
    SameAnswer res whole.result ↔
      PairsKept base v (knownSet p.knownNullifiers) c (cutRanges U rts srvs p) := by
  obtain ⟨outs, hscan, hranges, htx, hspent⟩ := runSync_eq_ok hle h
  have hcuts := @cuts_cutRanges U rts srvs _ hle
  have hwhole' := outcome_of_runSyncInner (p := { p with maxRetries := none }) hv
    (hserve _ _) hwhole
  have hpart : ∀ x ∈ outs, Outcome base v (knownSet p.knownNullifiers)
      (c.slice x.1.1.toNat x.1.2.toNat) x.2.result := by
    intro x hx
    obtain ⟨m, hm⟩ := hscan x hx
    exact outcome_of_runSyncInner (p := p.sub x.1.1 x.1.2) hv (hserve _ _)
      (runSyncInner_follows (hf m) hm)
  rw [SameAnswer, htx, hspent]
  exact (and_iff_left (mem_spentKnown_iff hcuts hpart hranges hwhole')).trans
    (mem_transactions_iff_pairsKept hcuts hpart hranges hwhole')

end Run

/-! ## A split between a note and its spend -/

/-- The small chain's server, whose first connection times out. -/
def flakyServers (n : Nat) : Server :=
  if n = 0 then { sampleServer with connect := .error "timeout" } else sampleServer

theorem flakyServers_follows (n : Nat) : (flakyServers n).Follows sampleServer := by
  unfold flakyServers
  split
  · exact ⟨fun _ ↦ rfl, fun _ _ _ h ↦ h, fun _ _ _ h ↦ h⟩
  · exact ⟨id, fun _ _ _ h ↦ h, fun _ _ _ h ↦ h⟩

def retryParams : SyncParams := { sampleParams 1 2 with maxRetries := some 1 }

/-- What a caller reads off an answer: txids and spent flags. -/
def SyncResult.summary (r : SyncResult) : List (String × List Bool) :=
  r.transactions.map fun t ↦ (t.txid, t.orchardNotes.map ShieldedNote.isSpent)

theorem mem_summary_congr {r r' : SyncResult} (h : ∀ t, t ∈ r.transactions ↔ t ∈ r'.transactions)
    (x : String × List Bool) : x ∈ r.summary ↔ x ∈ r'.summary := by
  simp only [SyncResult.summary, List.mem_map, h]

theorem runSync_flaky : ((runSync sampleCrypto (fun _ ↦ sampleRuntime) flakyServers
    retryParams).result.toOption.map SyncResult.summary) = some [("01", [false])] := by
  decide +kernel

theorem runSyncInner_whole : ((runSyncInner sampleCrypto sampleRuntime sampleServer
    { retryParams with maxRetries := none }).toOption.map fun out ↦ out.result.summary) =
      some [("01", [true]), ("02", [])] := by
  decide +kernel

/-- The received note is reported unspent, and the spending transaction is lost. -/
theorem split_loses_spend :
    sampleChain.Serves sampleServer ∧ (∀ n, (flakyServers n).Follows sampleServer) ∧
      ∃ res whole,
        (runSync sampleCrypto (fun _ ↦ sampleRuntime) flakyServers retryParams).result = .ok res ∧
        runSyncInner sampleCrypto sampleRuntime sampleServer
          { retryParams with maxRetries := none } = .ok whole ∧
        ¬ SameAnswer res whole.result := by
  obtain ⟨res, hres, hsum⟩ := Option.map_eq_some_iff.mp runSync_flaky
  obtain ⟨whole, hwhole, hsum'⟩ := Option.map_eq_some_iff.mp runSyncInner_whole
  refine ⟨fun _ _ ↦ rfl, flakyServers_follows, res, whole, toOption_eq_some.mp hres,
    toOption_eq_some.mp hwhole, ?_⟩
  rintro ⟨htx, -⟩
  have hmem := (mem_summary_congr htx ("02", [])).mpr (hsum' ▸ by decide)
  rw [hsum] at hmem
  exact absurd hmem (by decide)

/-- The equivalence at the failing input. -/
theorem sameAnswer_iff_pairsKept_flaky :
    ∃ res whole,
      (runSync sampleCrypto (fun _ ↦ sampleRuntime) flakyServers retryParams).result = .ok res ∧
      (SameAnswer res whole ↔ PairsKept sampleServer sampleView (knownSet []) sampleChain
        (cutRanges sampleCrypto (fun _ ↦ sampleRuntime) flakyServers retryParams)) := by
  obtain ⟨res, hres, -⟩ := Option.map_eq_some_iff.mp runSync_flaky
  obtain ⟨whole, hwhole, -⟩ := Option.map_eq_some_iff.mp runSyncInner_whole
  have hres' := toOption_eq_some.mp hres
  exact ⟨res, whole.result, hres', sameAnswer_iff_pairsKept (c := sampleChain) (v := sampleView)
    (fun _ _ ↦ rfl) flakyServers_follows rfl (by decide) hres' (toOption_eq_some.mp hwhole)⟩

end LedgerZcash
