import LedgerZcash.Sync.Outcome

/-!
# When a scan returns a result

A scan stops on an error of its keys, its connection, its stream, its known list, or a
transaction that the server does not return, and on nothing else (`runSyncInner_isOk_iff`).
In particular nothing looks at the heights that were streamed: that a successful scan has
seen the whole range holds exactly when the stream covered it, or the scan was stopped by
something else (`seesWholeRange_iff`).
-/

namespace LedgerZcash

open Hex Collect

/-! ## What stops a scan -/

/-- The server returns every transaction that the scan fetches: those that match, and those
that spend a tracked nullifier and whose txid is not among the transactions found so far. -/
def Answers {U : NoteCrypto} (srv : Server) (v : View U) (known : List String)
    (blocks : List Proto.CompactBlock) : Prop :=
  ∀ l ∈ located blocks,
    (l.matched v = true ∨
      (v.ledger srv).Spends l ((v.ledger srv).tracked (range blocks) (knownSet known)) ∧
        ∀ l' ∈ located blocks, l'.matched v = true → l'.txid = l.txid → l'.opened srv v = none) →
    ∃ raw, srv.getTransaction l.height l.tx.txid = .ok raw

/-- Nothing stops the scan: the keys parse, the server answers, and the stream is the given
list of blocks, with no error item. -/
structure Unimpeded (U : NoteCrypto) (srv : Server) (p : SyncParams) (v : View U)
    (blocks : List Proto.CompactBlock) : Prop where
  view : p.view U = .ok v
  connect : srv.connect = .ok ()
  stream : srv.getBlockRange p.startHeight.toNat p.endHeight.toNat = .ok (blocks.map .ok)
  known : ∀ k ∈ p.knownNullifiers, ∃ o, decodeKnownNullifier k = .ok o
  answers : Answers srv v p.knownNullifiers blocks

/-! ## Marking does not stop it -/

section Marking

variable {U : NoteCrypto} {v : View U}

/-- The nullifier of a decrypted note is written in hex by the scan itself. -/
theorem markNote_orchardFamilyNote (spent : List Bytes32) (size : Option Nat) (start : Nat)
    (o : DecryptedOutput) : ∃ note, markNote spent (orchardFamilyNote size start o) = .ok note := by
  unfold markNote
  cases hn : o.nullifier with
  | none => exact ⟨_, by simp [orchardFamilyNote, hn, pure, Except.pure]; rfl⟩
  | some n => exact ⟨_, by simp [orchardFamilyNote, hn, pure, Except.pure]; rfl⟩

theorem markSpent_ok {spent : List Bytes32} {notes : List ShieldedNote}
    (h : ∀ note ∈ notes, ∃ note', markNote spent note = .ok note') :
    markSpent notes spent = .ok (notes.map (flagNote spent)) :=
  mapM_eq_ok_map fun note hnote ↦ by
    obtain ⟨note', hn⟩ := h note hnote
    rw [hn, eq_flagNote_of_markNote hn]

theorem markTransaction_record (spent : Pool → List Bytes32) (l : Located)
    (x : List UInt8 × DecryptedTx) :
    markTransaction (spent .orchard) (spent .ironwood) (l.record v x) =
      .ok (flagTransaction spent (l.record v x)) := by
  have hnotes : ∀ (pool : Pool) (size : Option Nat) (start : Nat) (os : List DecryptedOutput),
      markSpent (os.map (orchardFamilyNote size start)) (spent pool) =
        .ok ((os.map (orchardFamilyNote size start)).map (flagNote (spent pool))) := by
    intro pool size start os
    refine markSpent_ok fun note hnote ↦ ?_
    obtain ⟨o, -, rfl⟩ := List.mem_map.mp hnote
    exact markNote_orchardFamilyNote _ size start o
  simp only [markTransaction, Located.record, shieldedTransaction]
  rw [hnotes .orchard, hnotes .ironwood]
  rfl

theorem phase5_records {spent : Pool → List Bytes32} {txs : List ShieldedTransaction}
    (h : ∀ t ∈ txs, ∃ l x, t = Located.record v l x) :
    ∃ txs', phase5 (spent .orchard) (spent .ironwood) txs = .ok txs' := by
  unfold phase5
  split
  · exact ⟨txs, rfl⟩
  · refine ⟨txs.map (flagTransaction spent), mapM_eq_ok_map fun t ht ↦ ?_⟩
    obtain ⟨l, x, rfl⟩ := h t ht
    exact markTransaction_record spent l x

end Marking

/-! ## The phases -/

section Phases

variable {U : NoteCrypto} {rt : Runtime} {srv : Server} {v : View U}
  {blocks : List Proto.CompactBlock} {results : List TrialResult}

/-- A txid is found in Phase 2 when a transaction that has it matches and can be read. -/
theorem Scanned.not_mem_found_iff (h : Scanned v blocks results) {txid : String} :
    txid ∉ ((phase2Kept srv v results).map Prod.fst).map ShieldedTransaction.txid ↔
      ∀ l ∈ located blocks, l.matched v = true → l.txid = txid → l.opened srv v = none := by
  constructor
  · intro hnot l hl hm hid
    rw [Option.eq_none_iff_forall_ne_some]
    intro x hx
    exact hnot (List.mem_map.mpr ⟨_, List.mem_map.mpr
      ⟨_, h.mem_phase2Kept.mpr ⟨l, hl, hm, x, hx, rfl⟩, rfl⟩, hid⟩)
  · intro hall hmem
    obtain ⟨t, ht, hid⟩ := List.mem_map.mp hmem
    obtain ⟨y, hy, rfl⟩ := List.mem_map.mp ht
    obtain ⟨l, hl, hm, x, hx, rfl⟩ := h.mem_phase2Kept.mp hy
    cases (hall l hl hm hid).symm.trans hx

/-- Every fetch succeeds when the server answers for what is fetched. -/
theorem Scanned.fetched_iff (h : Scanned v blocks results) {known : List String} :
    Fetched rt srv v known results ↔ Answers srv v known blocks := by
  constructor
  · intro hf l hl hd
    rw [← exists_fetchOf_iff (v := v)]
    rcases hd with hm | ⟨⟨pool, n, hn, ho⟩, hfound⟩
    · exact hf _ (Or.inl (h.phase2Targets_perm.mem_iff.mpr
        (List.mem_map_of_mem (List.mem_filter.mpr ⟨hl, hm⟩))))
    · obtain ⟨hb, htx⟩ := mem_located.mp hl
      exact hf _ (Or.inr (mem_phase4Targets.mpr ⟨h.mem_iff.mpr ⟨_, hb, rfl⟩,
        h.not_mem_found_iff.mpr hfound, n, h.mem_oursOf.mpr ho, pool,
        mem_nullifiersOf_blockResult.mpr ⟨l.tx, htx, rfl, hn⟩⟩))
  · rintro ha ⟨r, txid⟩ (hr | hr)
    · obtain ⟨l, hl, heq⟩ := List.mem_map.mp (h.phase2Targets_perm.mem_iff.mp hr)
      obtain ⟨hl, hm⟩ := List.mem_filter.mp hl
      rw [← heq]
      exact (exists_fetchOf_iff l).mpr (ha l hl (Or.inl hm))
    · obtain ⟨hr, hfound, n, ho, pool, he⟩ := mem_phase4Targets.mp hr
      obtain ⟨b, hb, rfl⟩ := h.mem_iff.mp hr
      obtain ⟨tx, htx, rfl, hn⟩ := mem_nullifiersOf_blockResult.mp he
      have hspends : (v.ledger srv).Spends ⟨b, tx⟩
          ((v.ledger srv).tracked (range blocks) (knownSet known)) :=
        ⟨pool, n, hn, h.mem_oursOf.mp ho⟩
      exact (exists_fetchOf_iff ⟨b, tx⟩).mpr (ha ⟨b, tx⟩ (mem_located.mpr ⟨hb, htx⟩)
        (Or.inr ⟨hspends, h.not_mem_found_iff.mp hfound⟩))

theorem decodeKnownNullifiers_ok {known : List String}
    (h : ∀ k ∈ known, ∃ o, decodeKnownNullifier k = .ok o) :
    decodeKnownNullifiers known = .ok (knownValues known) :=
  collectM_eq_ok_iff.mpr ⟨h, rfl⟩

theorem phase4_ok {known : List String} (hf : Fetched rt srv v known results) :
    phase4 U rt srv v.ufvk v.network (oursOf srv v known results) results
      ((phase2Kept srv v results).map Prod.fst) = .ok (unmarked rt srv v known results) := by
  unfold phase4 unmarked
  split
  · rfl
  · exact bind_eq_ok.mpr ⟨_, collectM_eq_ok_iff.mpr ⟨fun a ha ↦ hf a (Or.inr ha), rfl⟩, rfl⟩

variable (rt srv) in
/-- The records of a scan can be marked. -/
theorem Scanned.exists_phase5 (h : Scanned v blocks results) (known : List String) :
    ∃ txs, phase5 (spentOf srv v known results .orchard) (spentOf srv v known results .ironwood)
      (unmarked rt srv v known results) = .ok txs := by
  refine phase5_records (v := v) fun t ht ↦ ?_
  obtain ⟨l, -, x, -, rfl⟩ := h.sound ht
  exact ⟨l, x, rfl⟩

/-- The phases succeed when the known list can be decoded and every fetch is answered. -/
theorem Scanned.exists_scanResults (h : Scanned v blocks results) {known : List String}
    (hk : ∀ k ∈ known, ∃ o, decodeKnownNullifier k = .ok o)
    (hf : Fetched rt srv v known results) :
    ∃ res, scanResults U rt srv v.ufvk v.network known results = .ok res := by
  have hknown := decodeKnownNullifiers_ok hk
  have hmatched : collectM (fetchOf U srv v.ufvk v.network) (phase2Targets results) =
      .ok (phase2Kept srv v results) :=
    collectM_eq_ok_iff.mpr ⟨fun a ha ↦ hf a (Or.inl ha), rfl⟩
  obtain ⟨txs, htxs⟩ := h.exists_phase5 rt srv known
  exact ⟨_, bind_eq_ok.mpr ⟨_, hknown, bind_eq_ok.mpr ⟨_, hmatched, bind_eq_ok.mpr
    ⟨_, phase4_ok hf, bind_eq_ok.mpr ⟨_, htxs, bind_eq_ok.mpr ⟨_, hknown, rfl⟩⟩⟩⟩⟩⟩

theorem known_of_scanResults {known : List String} {res : SyncResult}
    (h : scanResults U rt srv v.ufvk v.network known results = .ok res) :
    ∀ k ∈ known, ∃ o, decodeKnownNullifier k = .ok o := by
  unfold scanResults at h
  obtain ⟨ks, hks, -⟩ := bind_eq_ok.mp h
  exact (collectM_eq_ok_iff.mp hks).1

end Phases

/-! ## The scan -/

section Scan

variable {U : NoteCrypto} {rt : Runtime} {srv : Server} {p : SyncParams}

theorem connect_of_runSyncInner {out : ScanOutput} (h : runSyncInner U rt srv p = .ok out) :
    srv.connect = .ok () := by
  unfold runSyncInner at h
  obtain ⟨keys, -, h⟩ := bind_eq_ok.mp h
  obtain ⟨u, hconnect, -⟩ := bind_eq_ok.mp h
  rwa [afterBlocks_eq_ok, orFail_eq_ok] at hconnect

theorem Unimpeded.of_ok {out : ScanOutput} (h : runSyncInner U rt srv p = .ok out) :
    ∃ v blocks, Unimpeded U srv p v blocks := by
  obtain ⟨v, blocks, results, hv, hb, hs, hr, -, -⟩ := runSyncInner_eq_ok h
  exact ⟨v, blocks, hv, connect_of_runSyncInner h, hb, known_of_scanResults hr,
    hs.fetched_iff.mp (scanResults_eq_ok hr).1⟩

/-- The results of the stream's blocks. -/
theorem exists_streamBlocks (rt : Runtime) (v : View U) (blocks : List Proto.CompactBlock) :
    ∃ results, Scanned v blocks results ∧
      streamBlocks U rt v.network (prepareIvksOf U v.ufvk) v.orchardOnly (blocks.map .ok) =
        .ok results := by
  have hmap : blocks.map (processCompactBlock U rt.threads (prepareIvksOf U v.ufvk)
      v.orchardOnly v.network) = blocks.map v.blockResult :=
    List.map_congr_left fun b _ ↦ processCompactBlock_eq_blockResult v rt.threads b
  refine ⟨rt.sortByKey TrialResult.height (rt.shuffle (blocks.map v.blockResult)),
    ⟨(rt.sortByKey_perm _ _).trans (rt.shuffle_perm _), rt.sortByKey_pairwise _ _⟩, ?_⟩
  unfold streamBlocks
  exact bind_eq_ok.mpr ⟨blocks, afterBlocks_eq_ok.mpr (readStream_eq_ok.mpr rfl), by rw [hmap]; rfl⟩

theorem Unimpeded.exists_ok {v : View U} {blocks : List Proto.CompactBlock}
    (h : Unimpeded U srv p v blocks) (rt : Runtime) :
    ∃ out, runSyncInner U rt srv p = .ok out := by
  obtain ⟨hkeys, horchard⟩ := parseSyncKeys_of_view h.view
  obtain ⟨results, hs, hstream⟩ := exists_streamBlocks rt v blocks
  rw [horchard] at hstream
  obtain ⟨res, hres⟩ := hs.exists_scanResults h.known (hs.fetched_iff.mpr h.answers)
  exact ⟨_, bind_eq_ok.mpr ⟨_, afterBlocks_eq_ok.mpr hkeys, bind_eq_ok.mpr
    ⟨(), afterBlocks_eq_ok.mpr (orFail_eq_ok.mpr h.connect), bind_eq_ok.mpr
      ⟨_, afterBlocks_eq_ok.mpr (orFail_eq_ok.mpr h.stream), bind_eq_ok.mpr
        ⟨_, hstream, bind_eq_ok.mpr ⟨_, afterBlocks_eq_ok.mpr hres, rfl⟩⟩⟩⟩⟩⟩

/-- A scan succeeds exactly when nothing stops it. -/
theorem runSyncInner_isOk_iff : (∃ out, runSyncInner U rt srv p = .ok out) ↔
    ∃ v blocks, Unimpeded U srv p v blocks := by
  constructor
  · rintro ⟨out, h⟩
    exact Unimpeded.of_ok h
  · rintro ⟨v, blocks, h⟩
    exact h.exists_ok rt

/-! ### The heights of the stream -/

/-- One block for each height of the range, in any order, and no other. -/
def CoversRange (p : SyncParams) (blocks : List Proto.CompactBlock) : Prop :=
  (blocks.map fun b ↦ b.height).Perm
    (List.range' p.startHeight.toNat (p.endHeight.toNat + 1 - p.startHeight.toNat))

/-- The scan returns a result only when the stream covered the range, and then its counter
is the size of the range, as a `u32`. -/
structure SeesWholeRange (U : NoteCrypto) (rt : Runtime) (srv : Server) (p : SyncParams) :
    Prop where
  seen : ∀ out, runSyncInner U rt srv p = .ok out → ∃ blocks,
    srv.getBlockRange p.startHeight.toNat p.endHeight.toNat = .ok (blocks.map .ok) ∧
      CoversRange p blocks ∧
      out.result.blocksScanned = asU32 (p.endHeight.toNat + 1 - p.startHeight.toNat)
  refused : (¬ ∃ blocks,
    srv.getBlockRange p.startHeight.toNat p.endHeight.toNat = .ok (blocks.map .ok) ∧
      CoversRange p blocks) → ∃ err, runSyncInner U rt srv p = .error err

/-- A successful scan has seen the whole range exactly when the stream covered it, or
something else stopped the scan. -/
theorem seesWholeRange_iff : SeesWholeRange U rt srv p ↔
    ∀ v blocks, Unimpeded U srv p v blocks → CoversRange p blocks := by
  constructor
  · intro h v blocks hu
    obtain ⟨out, hout⟩ := hu.exists_ok rt
    obtain ⟨blocks', hb, hc, -⟩ := h.seen out hout
    have hmap : blocks.map (@Except.ok String _) = blocks'.map .ok :=
      Except.ok.inj (hu.stream.symm.trans hb)
    cases List.map_injective_iff.mpr (fun _ _ ↦ Except.ok.inj) hmap
    exact hc
  · intro h
    have hseen : ∀ out, runSyncInner U rt srv p = .ok out → ∃ blocks,
        srv.getBlockRange p.startHeight.toNat p.endHeight.toNat = .ok (blocks.map .ok) ∧
          CoversRange p blocks ∧
          out.result.blocksScanned = asU32 (p.endHeight.toNat + 1 - p.startHeight.toNat) := by
      intro out hout
      obtain ⟨v, blocks, results, hv, hb, hs, hr, -, -⟩ := runSyncInner_eq_ok hout
      have hu : Unimpeded U srv p v blocks := ⟨hv, connect_of_runSyncInner hout, hb,
        known_of_scanResults hr, hs.fetched_iff.mp (scanResults_eq_ok hr).1⟩
      have hlen : results.length = p.endHeight.toNat + 1 - p.startHeight.toNat := by
        have hcover := (h v blocks hu).length_eq
        rw [hs.perm.length_eq, List.length_map]
        simpa using hcover
      exact ⟨blocks, hb, h v blocks hu, by rw [(scanResults_eq_ok hr).2.2.1, hlen]⟩
    refine ⟨hseen, fun hnot ↦ ?_⟩
    cases hrun : runSyncInner U rt srv p with
    | error err => exact ⟨err, rfl⟩
    | ok out =>
        obtain ⟨blocks, hb, hc, -⟩ := hseen out hrun
        exact absurd ⟨blocks, hb, hc⟩ hnot

/-! ### A stream that ends early -/

/-- The small chain's server, whose stream ends after the first block. -/
def shortServer : Server :=
  { sampleServer with getBlockRange _ _ := .ok ((sampleBlocks.take 1).map .ok) }

/-- The scan of two blocks returns a result after one. -/
theorem short_stream_accepted :
    (∃ out, runSyncInner sampleCrypto sampleRuntime shortServer (sampleParams 1 2) = .ok out ∧
      out.result.blocksScanned = 1) ∧
    ¬ SeesWholeRange sampleCrypto sampleRuntime shortServer (sampleParams 1 2) := by
  have hrun : ((runSyncInner sampleCrypto sampleRuntime shortServer (sampleParams 1 2)).toOption.map
      fun out ↦ out.result.blocksScanned) = some 1 := by
    decide +kernel
  obtain ⟨out, hout, hcount⟩ := Option.map_eq_some_iff.mp hrun
  have hok := toOption_eq_some.mp hout
  refine ⟨⟨out, hok, hcount⟩, fun h ↦ ?_⟩
  obtain ⟨blocks, -, -, hcount'⟩ := h.seen out hok
  exact absurd (hcount.symm.trans hcount') (by decide)

end Scan

end LedgerZcash
