import LedgerZcash.Sync.ScanSpec
import Mathlib.Data.List.Sort

/-!
# What a successful scan returns

A run of `runSyncInner` that returns a value is taken apart once (`runSyncInner_eq_ok`),
and what it reports are the detected transactions of the range's `Ledger`, each with its
flags (`Outcome`).  Results about scans use these and never look at a phase again.
-/

namespace LedgerZcash

open Hex Collect

/-! ## The results of a range

From here on the block results are those of a list of blocks, in some order that is
ascending in height. -/

/-- The results of `blocks`, sorted by height. -/
structure Scanned {U : NoteCrypto} (v : View U) (blocks : List Proto.CompactBlock)
    (results : List TrialResult) : Prop where
  perm : results.Perm (blocks.map v.blockResult)
  sorted : results.Pairwise fun r r' ↦ r.height ≤ r'.height

/-- The values of a known list, as a set. -/
def knownSet (known : List String) : Set Bytes32 := {n | ∃ k ∈ known, Hex.decode k = .ok n.1}

namespace Scanned

variable {U : NoteCrypto} {rt : Runtime} {srv : Server} {v : View U}
  {blocks : List Proto.CompactBlock} {results : List TrialResult} (h : Scanned v blocks results)
include h

theorem mem_iff {r : TrialResult} : r ∈ results ↔ ∃ b ∈ blocks, v.blockResult b = r := by
  rw [h.perm.mem_iff, List.mem_map]

theorem phase2Targets_perm : (phase2Targets results).Perm
    (((located blocks).filter (Located.matched v)).map
      fun l ↦ (v.blockResult l.block, l.txid)) := by
  refine (h.perm.flatMap_right _).trans (List.Perm.of_eq ?_)
  rw [List.flatMap_map, located, List.filter_flatMap, List.map_flatMap]
  refine congrArg (List.flatMap · blocks) (funext fun b ↦ ?_)
  rw [matchedTxids_blockResult, List.filter_map, List.map_map, List.map_map, List.map_map]
  rfl

theorem phase2Kept_perm : (phase2Kept srv v results).Perm
    (((located blocks).filter (Located.matched v)).filterMap
      fun l ↦ (l.opened srv v).map fun x ↦ (l.record v x, receivedNullifiers x.2)) := by
  refine (h.phase2Targets_perm.filterMap _).trans (List.Perm.of_eq ?_)
  rw [List.filterMap_map]
  refine List.filterMap_congr fun l _ ↦ ?_
  rw [Function.comp_apply, kept_fetchOf]

theorem mem_phase2Kept {y : ShieldedTransaction × List Bytes32} :
    y ∈ phase2Kept srv v results ↔ ∃ l ∈ located blocks, l.matched v = true ∧
      ∃ x, l.opened srv v = some x ∧ y = (l.record v x, receivedNullifiers x.2) := by
  simp only [h.phase2Kept_perm.mem_iff, List.mem_filterMap, List.mem_filter,
    Option.map_eq_some_iff, and_assoc, eq_comm (a := y)]

/-- What the code tracks is what the ledger tracks. -/
theorem mem_oursOf {known : List String} {n : Bytes32} :
    n ∈ oursOf srv v known results ↔
      n ∈ (v.ledger srv).tracked (range blocks) (knownSet known) := by
  rw [oursOf, List.mem_append, mem_knownValues]
  refine or_congr Iff.rfl ?_
  rw [List.mem_flatMap]
  constructor
  · rintro ⟨y, hy, hn⟩
    obtain ⟨l, hl, hm, x, hx, rfl⟩ := h.mem_phase2Kept.mp hy
    obtain ⟨pool, o, ho, hno⟩ := mem_receivedNullifiers.mp hn
    exact ⟨l, hl, hm, pool, Located.mem_notes.mpr ⟨x.1, x.2, hx, o, ho, hno⟩⟩
  · rintro ⟨l, hl, hm, pool, hn⟩
    obtain ⟨raw, d, hx, o, ho, hno⟩ := Located.mem_notes.mp hn
    exact ⟨_, h.mem_phase2Kept.mpr ⟨l, hl, hm, _, hx, rfl⟩,
      mem_receivedNullifiers.mpr ⟨pool, o, ho, hno⟩⟩

/-- A nullifier listed under some txid of a pool is one that the range reveals. -/
theorem exists_nullifiersOf_iff {pool : Pool} {n : Bytes32} :
    (∃ r ∈ results, ∃ e ∈ r.nullifiersOf pool, n ∈ e.2) ↔
      n ∈ (v.ledger srv).revealed (range blocks) pool := by
  constructor
  · rintro ⟨r, hr, e, he, hn⟩
    obtain ⟨b, hb, rfl⟩ := h.mem_iff.mp hr
    obtain ⟨tx, htx, -, hn'⟩ := mem_nullifiersOf_blockResult.mp ⟨e, he, rfl, hn⟩
    exact ⟨⟨b, tx⟩, mem_located.mpr ⟨hb, htx⟩, hn'⟩
  · rintro ⟨l, hl, hn⟩
    obtain ⟨hb, htx⟩ := mem_located.mp hl
    obtain ⟨e, he, -, hn'⟩ :=
      (mem_nullifiersOf_blockResult (v := v)).mpr ⟨l.tx, htx, rfl, hn⟩
    exact ⟨_, h.mem_iff.mpr ⟨l.block, hb, rfl⟩, e, he, hn'⟩

theorem mem_spentOf {known : List String} {pool : Pool} {n : Bytes32} :
    n ∈ spentOf srv v known results pool ↔
      n ∈ (v.ledger srv).spent (range blocks) (knownSet known) pool := by
  rw [spentOf, spentIn, List.mem_dedup, List.mem_filter, decide_eq_true_iff, h.mem_oursOf,
    and_comm]
  refine and_congr_right fun _ ↦ ?_
  rw [← h.exists_nullifiersOf_iff]
  simp only [List.mem_flatMap]
  constructor
  · rintro ⟨e, ⟨r, hr, he⟩, hn⟩
    exact ⟨r, hr, e, he, hn⟩
  · rintro ⟨r, hr, e, he, hn⟩
    exact ⟨e, ⟨r, hr, he⟩, hn⟩

/-! ### The transactions before marking -/

/-- Every reported transaction is a detected one. -/
theorem sound {known : List String} {t : ShieldedTransaction}
    (ht : t ∈ unmarked rt srv v known results) :
    ∃ l ∈ (v.ledger srv).detected (range blocks) (knownSet known),
      ∃ x, l.opened srv v = some x ∧ t = l.record v x := by
  have hmatched : ∀ y ∈ phase2Kept srv v results,
      ∃ l ∈ (v.ledger srv).detected (range blocks) (knownSet known),
        ∃ x, l.opened srv v = some x ∧ y.1 = l.record v x := by
    intro y hy
    obtain ⟨l, hl, hm, x, hx, rfl⟩ := h.mem_phase2Kept.mp hy
    exact ⟨l, ⟨hl, Option.isSome_of_mem hx, Or.inl hm⟩, x, hx, rfl⟩
  unfold unmarked at ht
  split at ht
  · obtain ⟨y, hy, rfl⟩ := List.mem_map.mp ht
    exact hmatched y hy
  · rw [(rt.sortByKey_perm _ _).mem_iff] at ht
    rcases List.mem_append.mp ht with ht | ht
    · obtain ⟨y, hy, rfl⟩ := List.mem_map.mp ht
      exact hmatched y hy
    · obtain ⟨y, hy, rfl⟩ := List.mem_map.mp ht
      obtain ⟨⟨r, txid⟩, hr, hk⟩ := List.mem_filterMap.mp hy
      obtain ⟨hr, -, n, ho, pool, e, he, hid, hn⟩ := mem_phase4Targets.mp hr
      obtain ⟨b, hb, rfl⟩ := h.mem_iff.mp hr
      obtain ⟨tx, htx, rfl, hn'⟩ := mem_nullifiersOf_blockResult.mp ⟨e, he, hid, hn⟩
      have hk' := (@kept_fetchOf _ srv v ⟨b, tx⟩).symm.trans hk
      obtain ⟨x, hx, rfl⟩ := Option.map_eq_some_iff.mp hk'
      exact ⟨⟨b, tx⟩, ⟨mem_located.mpr ⟨hb, htx⟩, Option.isSome_of_mem hx,
        Or.inr ⟨pool, n, hn', h.mem_oursOf.mp ho⟩⟩, x, hx, rfl⟩

/-- With unique txids, Phase 4 visits every transaction that spends and was not matched. -/
theorem mem_phase4Targets_of_spends (hu : UniqueTxids blocks) {known : List String} {l : Located}
    (hl : l ∈ located blocks) (hm : ¬ l.matched v = true)
    (hs : (v.ledger srv).Spends l ((v.ledger srv).tracked (range blocks) (knownSet known))) :
    (v.blockResult l.block, l.txid) ∈ phase4Targets rt (oursOf srv v known results)
      (((phase2Kept srv v results).map Prod.fst).map ShieldedTransaction.txid) results := by
  obtain ⟨pool, n, hn, ho⟩ := hs
  obtain ⟨hb, htx⟩ := mem_located.mp hl
  obtain ⟨e, he, hid, hn'⟩ := (mem_nullifiersOf_blockResult (v := v)).mpr ⟨l.tx, htx, rfl, hn⟩
  refine mem_phase4Targets.mpr ⟨h.mem_iff.mpr ⟨_, hb, rfl⟩, fun hf ↦ ?_, n,
    h.mem_oursOf.mpr ho, pool, e, he, hid, hn'⟩
  -- no matched transaction carries this txid
  obtain ⟨t, ht, hid'⟩ := List.mem_map.mp hf
  obtain ⟨y, hy, rfl⟩ := List.mem_map.mp ht
  obtain ⟨l', hl', hm', x', -, rfl⟩ := h.mem_phase2Kept.mp hy
  have heq := List.inj_on_of_nodup_map hu hl' hl (displayHex_inj.mp hid')
  exact hm (heq ▸ hm')

/-- With unique txids, every detected transaction is reported. -/
theorem complete (hu : UniqueTxids blocks) {known : List String} {l : Located}
    (hl : l ∈ (v.ledger srv).detected (range blocks) (knownSet known))
    {x : List UInt8 × DecryptedTx} (hx : l.opened srv v = some x) :
    l.record v x ∈ unmarked rt srv v known results := by
  obtain ⟨hl, -, hd⟩ := hl
  have hmatched : l.matched v = true → l.record v x ∈ (phase2Kept srv v results).map Prod.fst :=
    fun hm ↦ List.mem_map.mpr ⟨_, h.mem_phase2Kept.mpr ⟨l, hl, hm, x, hx, rfl⟩, rfl⟩
  unfold unmarked
  split
  · rename_i hnil
    refine hmatched (hd.resolve_right ?_)
    rintro ⟨pool, n, -, hn⟩
    rw [← h.mem_oursOf, hnil] at hn
    exact List.not_mem_nil hn
  · rw [(rt.sortByKey_perm _ _).mem_iff, List.mem_append]
    by_cases hm : l.matched v = true
    · exact Or.inl (hmatched hm)
    have ht := @mem_phase4Targets_of_spends _ rt _ _ _ _ h hu _ _ hl hm (hd.resolve_left hm)
    refine Or.inr (List.mem_map.mpr ⟨(l.record v x, receivedNullifiers x.2),
      List.mem_filterMap.mpr ⟨_, ht, ?_⟩, rfl⟩)
    rw [kept_fetchOf, hx]
    rfl

/-- With unique txids, the server answered for every matched or spending transaction. -/
theorem answered (hu : UniqueTxids blocks) {known : List String}
    (hf : Fetched rt srv v known results) {l : Located} (hl : l ∈ located blocks)
    (hd : l.matched v = true ∨
      (v.ledger srv).Spends l ((v.ledger srv).tracked (range blocks) (knownSet known))) :
    ∃ raw, srv.getTransaction l.height l.tx.txid = .ok raw := by
  rw [← exists_fetchOf_iff (v := v)]
  by_cases hm : l.matched v = true
  · exact hf _ (Or.inl (h.phase2Targets_perm.mem_iff.mpr
      (List.mem_map_of_mem (List.mem_filter.mpr ⟨hl, hm⟩))))
  · exact hf _ (Or.inr (h.mem_phase4Targets_of_spends hu hl hm (hd.resolve_left hm)))

theorem nodup_phase2Kept (hu : UniqueTxids blocks) :
    (((phase2Kept srv v results).map Prod.fst).map ShieldedTransaction.txid).Nodup := by
  have hids : ((located blocks).map Located.txid).Nodup := by
    have hmap := hu.map (f := displayHex) fun _ _ ↦ displayHex_inj.mp
    rwa [List.map_map] at hmap
  rw [((h.phase2Kept_perm.map _).map _).nodup_iff]
  have hfilter := (List.filter_sublist (p := Located.matched v) (l := located blocks)).map
    Located.txid
  rw [List.map_map]
  refine hids.sublist ((map_filterMap_sublist ?_ _).trans hfilter)
  intro l y hy
  obtain ⟨x, -, rfl⟩ := Option.map_eq_some_iff.mp hy
  rfl

theorem nodup_phase4Targets (hu : UniqueTxids blocks) (ours : List Bytes32)
    (alreadyFound : List String) :
    ((phase4Targets rt ours alreadyFound results).map Prod.snd).Nodup := by
  have hperm : (phase4Targets rt ours alreadyFound results).Perm
      (phase4Targets rt ours alreadyFound (blocks.map v.blockResult)) := h.perm.flatMap_right _
  have hsplit : ∀ rs : List TrialResult, phase4Targets rt ours alreadyFound rs =
      rs.flatMap fun r ↦ phase4Targets rt ours alreadyFound [r] := by
    intro rs
    simp only [phase4Targets, List.flatMap_singleton]
  have hids : (blocks.flatMap fun b ↦ b.vtx.map fun tx ↦ tx.txid).Nodup := by
    simpa only [UniqueTxids, located, List.map_flatMap, List.map_map, Function.comp_def] using hu
  obtain ⟨-, hdisj⟩ := List.nodup_flatMap.mp hids
  rw [(hperm.map _).nodup_iff, hsplit, List.map_flatMap, List.flatMap_map, List.nodup_flatMap]
  refine ⟨fun b _ ↦ nodup_map_phase4Targets _, hdisj.imp fun {b b'} hbb ↦ ?_⟩
  -- a txid visited in two blocks would be a txid of both
  intro txid ht ht'
  have htx : ∀ c : Proto.CompactBlock,
      txid ∈ (phase4Targets rt ours alreadyFound [v.blockResult c]).map Prod.snd →
        ∃ tx ∈ c.vtx, displayHex tx.txid = txid := by
    intro c hc
    obtain ⟨⟨r, id⟩, hr, rfl⟩ := List.mem_map.mp hc
    obtain ⟨hr, -, n, -, pool, he⟩ := mem_phase4Targets.mp hr
    cases List.mem_singleton.mp hr
    obtain ⟨e, he, hid, hn⟩ := he
    obtain ⟨tx, htx, hid', -⟩ := mem_nullifiersOf_blockResult.mp ⟨e, he, hid, hn⟩
    exact ⟨tx, htx, hid'⟩
  obtain ⟨tx, hb, hid⟩ := htx b ht
  obtain ⟨tx', hb', hid'⟩ := htx b' ht'
  have heq : tx.txid = tx'.txid := displayHex_inj.mp (hid.trans hid'.symm)
  exact hbb (List.mem_map_of_mem hb) (heq ▸ List.mem_map_of_mem hb')

/-- With unique txids, no transaction is reported twice. -/
theorem nodup (hu : UniqueTxids blocks) (known : List String) :
    ((unmarked rt srv v known results).map ShieldedTransaction.txid).Nodup := by
  unfold unmarked
  split
  · exact h.nodup_phase2Kept hu
  rw [((rt.sortByKey_perm _ _).map _).nodup_iff, List.map_append, List.nodup_append]
  have hsub : ((phase4Kept rt srv v known results).map ShieldedTransaction.txid).Sublist
      ((phase4Targets rt (oursOf srv v known results)
        (((phase2Kept srv v results).map Prod.fst).map ShieldedTransaction.txid) results).map
          Prod.snd) := by
    rw [phase4Kept, List.map_map]
    exact map_filterMap_sublist (fun a y hy ↦ (kept_fetchOf_eq_some hy).2) _
  refine ⟨h.nodup_phase2Kept hu, (h.nodup_phase4Targets hu _ _).sublist hsub, ?_⟩
  rintro id hm _ hs rfl
  obtain ⟨⟨r, id'⟩, ha, rfl⟩ := List.mem_map.mp (hsub.subset hs)
  exact (mem_phase4Targets.mp ha).2.1 hm

/-- The reported transactions are in ascending height. -/
theorem ascending (known : List String) :
    (unmarked rt srv v known results).Pairwise fun t t' ↦ t.blockHeight ≤ t'.blockHeight := by
  unfold unmarked
  split
  · rw [phase2Kept, List.pairwise_map]
    refine List.Pairwise.filterMap (R := fun a a' ↦ a.1.height ≤ a'.1.height) _ ?_ ?_
    · intro a a' haa y hy y' hy'
      rw [(kept_fetchOf_eq_some hy).1, (kept_fetchOf_eq_some hy').1]
      exact haa
    · rw [phase2Targets, List.pairwise_flatMap]
      refine ⟨fun r _ ↦ ?_, h.sorted.imp fun {r r'} hrr ↦ ?_⟩
      · exact List.pairwise_map.mpr (List.pairwise_of_forall fun _ _ ↦ le_refl _)
      · rintro a ha a' ha'
        obtain ⟨_, -, rfl⟩ := List.mem_map.mp ha
        obtain ⟨_, -, rfl⟩ := List.mem_map.mp ha'
        exact hrr
  · exact rt.sortByKey_pairwise _ _

end Scanned

/-! ## The run -/

section Run

variable {U : NoteCrypto}

/-- What a scan with these parameters looks for. -/
def SyncParams.view (U : NoteCrypto) (p : SyncParams) : Except Failure (View U) :=
  (parseSyncKeys U p.network p.viewingKey).map fun keys ↦ ⟨keys.1, keys.2.2, p.orchardOnly⟩

theorem parseSyncKeys_eq_ok {networkStr : Option String} {viewingKey : String}
    {keys : Network × PreparedIvks U × U.Ufvk}
    (h : parseSyncKeys U networkStr viewingKey = .ok keys) :
    keys.2.1 = prepareIvksOf U keys.2.2 := by
  unfold parseSyncKeys at h
  obtain ⟨network, -, h⟩ := bind_eq_ok.mp h
  obtain ⟨ivks, hivks, h⟩ := bind_eq_ok.mp h
  obtain ⟨ufvk, hufvk, h⟩ := bind_eq_ok.mp h
  rw [orFail_eq_ok] at hivks hufvk
  rw [← pure_eq_ok.mp h]
  simpa [prepareIvks, hufvk, eq_comm] using hivks

/-- The keys of a view, with the IVKs prepared from its UFVK. -/
theorem parseSyncKeys_of_view {p : SyncParams} {v : View U} (h : p.view U = .ok v) :
    parseSyncKeys U p.network p.viewingKey =
      .ok (v.network, prepareIvksOf U v.ufvk, v.ufvk) ∧ v.orchardOnly = p.orchardOnly := by
  unfold SyncParams.view at h
  cases hkeys : parseSyncKeys U p.network p.viewingKey with
  | error e =>
      rw [hkeys] at h
      cases h
  | ok keys =>
      have hivks := parseSyncKeys_eq_ok hkeys
      rw [hkeys] at h
      cases h
      exact ⟨by rw [← hivks], rfl⟩

theorem readStream_eq_ok {α : Type} {error : String → String} {stream : List (Except String α)}
    {l : List α} : readStream error stream = .ok l ↔ stream = l.map .ok := by
  rw [readStream, mapM_eq_ok_iff, ← List.forall₂_eq_eq_eq, List.forall₂_map_right_iff]
  simp only [orFail_eq_ok]

theorem afterBlocks_eq_ok {α : Type} {n : Nat} {x : Except Failure α} {a : α} :
    afterBlocks n x = .ok a ↔ x = .ok a := mapError_eq_ok

/-- A stream that was read to its end is a list of blocks, and the results are theirs. -/
theorem streamBlocks_eq_ok {rt : Runtime} {v : View U}
    {stream : List (Except String Proto.CompactBlock)} {results : List TrialResult}
    (h : streamBlocks U rt v.network (prepareIvksOf U v.ufvk) v.orchardOnly stream = .ok results) :
    ∃ blocks, stream = blocks.map .ok ∧ Scanned v blocks results := by
  unfold streamBlocks at h
  obtain ⟨blocks, hblocks, hsort⟩ := bind_eq_ok.mp h
  rw [afterBlocks_eq_ok, readStream_eq_ok] at hblocks
  have hmap : blocks.map (processCompactBlock U rt.threads (prepareIvksOf U v.ufvk)
      v.orchardOnly v.network) = blocks.map v.blockResult :=
    List.map_congr_left fun b _ ↦ processCompactBlock_eq_blockResult v rt.threads b
  rw [← pure_eq_ok.mp hsort, hmap]
  exact ⟨blocks, hblocks, (rt.sortByKey_perm _ _).trans (rt.shuffle_perm _),
    rt.sortByKey_pairwise _ _⟩

/-- A successful run: the keys parse, the stream is a list of blocks, and the rest is a
function of their results. -/
theorem runSyncInner_eq_ok {rt : Runtime} {srv : Server} {p : SyncParams} {out : ScanOutput}
    (h : runSyncInner U rt srv p = .ok out) :
    ∃ v blocks results, p.view U = .ok v ∧
      srv.getBlockRange p.startHeight.toNat p.endHeight.toNat = .ok (blocks.map .ok) ∧
      Scanned v blocks results ∧
      scanResults U rt srv v.ufvk v.network p.knownNullifiers results = .ok out.result ∧
      out.emitted = out.result.transactions ∧ out.blocksDone = blocks.length := by
  unfold runSyncInner at h
  obtain ⟨⟨network, ivks, ufvk⟩, hkeys, h⟩ := bind_eq_ok.mp h
  obtain ⟨-, -, h⟩ := bind_eq_ok.mp h
  obtain ⟨stream, hstream, h⟩ := bind_eq_ok.mp h
  obtain ⟨results, hresults, h⟩ := bind_eq_ok.mp h
  obtain ⟨result, hresult, hout⟩ := bind_eq_ok.mp h
  rw [afterBlocks_eq_ok] at hkeys hstream hresult
  rw [orFail_eq_ok] at hstream
  have hivks : ivks = prepareIvksOf U ufvk := parseSyncKeys_eq_ok hkeys
  subst hivks
  let v : View U := ⟨network, ufvk, p.orchardOnly⟩
  obtain ⟨blocks, rfl, hscanned⟩ := streamBlocks_eq_ok (v := v) hresults
  rw [← pure_eq_ok.mp hout]
  refine ⟨v, blocks, results, ?_, hstream, hscanned, hresult, rfl, ?_⟩
  · simp [SyncParams.view, hkeys, Except.map, v]
  · simpa using hscanned.perm.length_eq

end Run

/-! ## The report -/

section Report

variable {U : NoteCrypto}

open Classical in
/-- A note whose flag is decided by a set. -/
noncomputable def familyNote (S : Set Bytes32) (size : Option Nat) (start : Nat)
    (o : DecryptedOutput) : ShieldedNote :=
  { orchardFamilyNote size start o with
    isSpent := decide (∃ n, o.nullifier = some n ∧ n ∈ S) }

open Classical in
theorem flagNote_orchardFamilyNote {spent : List Bytes32} {S : Set Bytes32}
    (h : ∀ n, n ∈ spent ↔ n ∈ S) (size : Option Nat) (start : Nat) (o : DecryptedOutput) :
    flagNote spent (orchardFamilyNote size start o) = familyNote S size start o := by
  have hiff : (orchardFamilyNote size start o).nullifierIn spent = true ↔
      ∃ n, o.nullifier = some n ∧ n ∈ S := by
    rw [nullifierIn_orchardFamilyNote]
    exact exists_congr fun n ↦ and_congr_right fun _ ↦ h n
  unfold flagNote familyNote
  by_cases hs : ∃ n, o.nullifier = some n ∧ n ∈ S
  · rw [if_pos (hiff.mpr hs), decide_eq_true hs]
  · rw [if_neg (mt hiff.mp hs), decide_eq_false hs]
    rfl

/-- The reported form of a transaction: a note of a pool is flagged when its nullifier is
in that pool's set. -/
noncomputable def Located.report (v : View U) (S : Pool → Set Bytes32) (l : Located)
    (x : List UInt8 × DecryptedTx) : ShieldedTransaction :=
  let ctx := blockFetchCtx (v.blockResult l.block) l.txid
  { l.record v x with
    orchardNotes := x.2.orchardOutputs.map
      (familyNote (S .orchard) ctx.treeSizeBeforeBlock ctx.txActionStart)
    ironwoodNotes := x.2.ironwoodOutputs.map
      (familyNote (S .ironwood) ctx.ironwoodTreeSizeBeforeBlock ctx.ironwoodTxActionStart) }

theorem flagTransaction_record {spent : Pool → List Bytes32} {S : Pool → Set Bytes32}
    (h : ∀ pool n, n ∈ spent pool ↔ n ∈ S pool) (v : View U) (l : Located)
    (x : List UInt8 × DecryptedTx) : flagTransaction spent (l.record v x) = l.report v S x := by
  simp only [flagTransaction, Located.report, Located.record, shieldedTransaction, List.map_map]
  congr 1 <;> exact List.map_congr_left fun o _ ↦ flagNote_orchardFamilyNote (h _) _ _ o

/-- Two reports of a transaction agree when they agree on the flags of its notes. -/
theorem Located.report_eq_iff {srv : Server} {v : View U} {S S' : Pool → Set Bytes32}
    {l : Located} {x : List UInt8 × DecryptedTx} (hx : l.opened srv v = some x) :
    l.report v S x = l.report v S' x ↔
      ∀ pool, ∀ n ∈ l.notes srv v pool, n ∈ S pool ↔ n ∈ S' pool := by
  have hnote : ∀ (A B : Set Bytes32) (size : Option Nat) (start : Nat) (o : DecryptedOutput),
      familyNote A size start o = familyNote B size start o ↔
        ∀ n, o.nullifier = some n → (n ∈ A ↔ n ∈ B) := by
    intro A B size start o
    cases hn : o.nullifier <;> simp [familyNote, hn]
  have hpool : ∀ (A B : Set Bytes32) (size : Option Nat) (start : Nat)
      (os : List DecryptedOutput),
      os.map (familyNote A size start) = os.map (familyNote B size start) ↔
        ∀ n, (∃ o ∈ os, o.nullifier = some n) → (n ∈ A ↔ n ∈ B) := by
    intro A B size start os
    simp only [List.map_inj_left, hnote, forall_exists_index, and_imp]
    exact ⟨fun h n o ho hn ↦ h o ho n hn, fun h o ho n hn ↦ h n o ho hn⟩
  simp only [Located.report, ShieldedTransaction.mk.injEq, hpool, true_and]
  constructor
  · rintro ⟨ho, hi⟩ pool n hn
    obtain ⟨raw, d, hd, o, hod, hon⟩ := Located.mem_notes.mp hn
    cases hx.symm.trans hd
    cases pool with
    | orchard => exact ho n ⟨o, hod, hon⟩
    | ironwood => exact hi n ⟨o, hod, hon⟩
  · intro h
    constructor
    · rintro n ⟨o, ho, hn⟩
      exact h .orchard n (Located.mem_notes.mpr ⟨x.1, x.2, hx, o, ho, hn⟩)
    · rintro n ⟨o, ho, hn⟩
      exact h .ironwood n (Located.mem_notes.mpr ⟨x.1, x.2, hx, o, ho, hn⟩)

/-- What a scan of `blocks` that knew `K` has to return. -/
structure Outcome (srv : Server) (v : View U) (K : Set Bytes32)
    (blocks : List Proto.CompactBlock) (res : SyncResult) : Prop where
  sound : ∀ t ∈ res.transactions, ∃ l ∈ (v.ledger srv).detected (range blocks) K,
    ∃ x, l.opened srv v = some x ∧ t = l.report v ((v.ledger srv).spent (range blocks) K) x
  complete : UniqueTxids blocks → ∀ l ∈ (v.ledger srv).detected (range blocks) K,
    ∀ x, l.opened srv v = some x →
      l.report v ((v.ledger srv).spent (range blocks) K) x ∈ res.transactions
  answered : UniqueTxids blocks → ∀ l ∈ located blocks,
    l.matched v = true ∨
      (v.ledger srv).Spends l ((v.ledger srv).tracked (range blocks) K) →
    ∃ raw, srv.getTransaction l.height l.tx.txid = .ok raw
  nodup : UniqueTxids blocks → (res.transactions.map ShieldedTransaction.txid).Nodup
  ascending : res.transactions.Pairwise fun t t' ↦ t.blockHeight ≤ t'.blockHeight
  spentKnown : ∀ s, s ∈ res.spentKnownNullifiers ↔
    ∃ n ∈ K, (∃ pool, n ∈ (v.ledger srv).revealed (range blocks) pool) ∧ s = Hex.encode n.1

/-- Every successful scan has its outcome. -/
theorem outcome_of_scanResults {rt : Runtime} {srv : Server} {v : View U} {known : List String}
    {blocks : List Proto.CompactBlock} {results : List TrialResult} {res : SyncResult}
    (hs : Scanned v blocks results)
    (h : scanResults U rt srv v.ufvk v.network known results = .ok res) :
    Outcome srv v (knownSet known) blocks res := by
  obtain ⟨hfetched, htx, -, hspent⟩ := scanResults_eq_ok h
  have hspentOf : ∀ pool n, n ∈ spentOf srv v known results pool ↔
      n ∈ (v.ledger srv).spent (range blocks) (knownSet known) pool := fun _ _ ↦ hs.mem_spentOf
  have hflag := flagTransaction_record hspentOf v
  refine ⟨?_, ?_, fun hu l hl hd ↦ hs.answered hu hfetched hl hd, ?_, ?_, ?_⟩
  · intro t ht
    rw [htx] at ht
    obtain ⟨t', ht', rfl⟩ := List.mem_map.mp ht
    obtain ⟨l, hl, x, hx, rfl⟩ := hs.sound ht'
    exact ⟨l, hl, x, hx, hflag l x⟩
  · intro hu l hl x hx
    rw [htx]
    exact List.mem_map.mpr ⟨_, hs.complete hu hl hx, hflag l x⟩
  · intro hu
    rw [htx, List.map_map]
    exact hs.nodup hu known
  · rw [htx, List.pairwise_map]
    exact hs.ascending known
  · intro s
    simp only [hspent, List.mem_map, List.mem_filter, List.mem_append,
      (rt.shuffle_perm _).mem_iff, hs.mem_spentOf, decide_eq_true_eq, mem_knownValues]
    constructor
    · rintro ⟨n, ⟨⟨-, hr⟩ | ⟨-, hr⟩, hk⟩, rfl⟩
      · exact ⟨n, hk, ⟨.orchard, hr⟩, rfl⟩
      · exact ⟨n, hk, ⟨.ironwood, hr⟩, rfl⟩
    · rintro ⟨n, hk, ⟨_ | _, hr⟩, rfl⟩
      · exact ⟨n, ⟨Or.inl ⟨Or.inl hk, hr⟩, hk⟩, rfl⟩
      · exact ⟨n, ⟨Or.inr ⟨Or.inl hk, hr⟩, hk⟩, rfl⟩

/-- Every successful run has the outcome of the blocks that the server streamed. -/
theorem outcome_of_runSyncInner {rt : Runtime} {srv : Server} {p : SyncParams} {v : View U}
    {blocks : List Proto.CompactBlock} {out : ScanOutput} (hv : p.view U = .ok v)
    (hb : srv.getBlockRange p.startHeight.toNat p.endHeight.toNat = .ok (blocks.map .ok))
    (h : runSyncInner U rt srv p = .ok out) :
    Outcome srv v (knownSet p.knownNullifiers) blocks out.result := by
  obtain ⟨v', blocks', results, hv', hb', hs, hr, -, -⟩ := runSyncInner_eq_ok h
  cases hv.symm.trans hv'
  have hmap : blocks.map (@Except.ok String _) = blocks'.map .ok :=
    Except.ok.inj (hb.symm.trans hb')
  cases List.map_injective_iff.mpr (fun _ _ ↦ Except.ok.inj) hmap
  exact outcome_of_scanResults hs hr

end Report

/-! ## A small world

A toy of the upstream crates, and a chain of two blocks: the first pays the account one
note, the second spends it and pays nothing. -/

section Sample

def sampleBatch {Ivk Output : Type} (single : List Ivk → Output → Option Nat) :
    BatchDecryption Ivk Output where
  single := single
  batch ivks outs := outs.map (single ivks)
  batch_eq _ _ := rfl

/-- A note whose fields are all made of one byte. -/
def sampleNote (b : UInt8) : OrchardNote := ⟨fill 43 b, 5, fill 32 b, fill 32 b, fill 32 b⟩

/-- A transaction is a list of bytes, one an Orchard action: a nonzero byte pays the
account a note of that byte. -/
def sampleCrypto : NoteCrypto where
  Ufvk := Unit
  SaplingIvk := Unit
  OrchardFvk := Unit
  OrchardIvk := Scope
  Transaction := List UInt8
  decodeUfvk s := if s = "uview" then .ok () else .error "not a viewing key"
  saplingIvk _ := none
  orchard _ := some ()
  orchardIvk _ scope := scope
  validCmu _ := true
  validCmx _ := true
  validNullifier _ := true
  saplingBatch := sampleBatch fun _ _ ↦ none
  orchardBatch := sampleBatch fun _ a ↦ if a.cmx = fill 32 0 then none else some 0
  ironwoodBatch := sampleBatch fun _ _ ↦ none
  readTransaction _ _ raw := .ok raw
  decryptTransaction _ _ raw _ :=
    { saplingOutputs := []
      orchardOutputs := raw.zipIdx.filterMap fun (b, i) ↦
        if b = 0 then none else some ⟨i, sampleNote b, [], .incoming, .orchard⟩
      ironwoodOutputs := [] }
  nullifier note _ := note.rho
  transparentBundle _ := none
  feePaid _ := none

/-- No concurrency: everything stays in order. -/
def sampleRuntime : Runtime where
  shuffle := id
  shuffle_perm _ := .refl _
  sortByKey key l := l.insertionSort fun a b ↦ key a ≤ key b
  sortByKey_perm _ l := l.perm_insertionSort _
  sortByKey_pairwise key l :=
    have : Std.Total fun a b ↦ key a ≤ key b := ⟨fun a b ↦ le_total (key a) (key b)⟩
    have : IsTrans _ fun a b ↦ key a ≤ key b := ⟨fun _ _ _ ↦ le_trans⟩
    l.pairwise_insertionSort _
  threads := 1
  finished := id
  finished_le _ := le_refl _

/-- A transaction with one Orchard action. -/
def sampleTx (id nf cmx : UInt8) : Proto.CompactTx :=
  ⟨[id], [], [⟨List.replicate 32 nf, List.replicate 32 cmx, List.replicate 32 0,
    List.replicate 52 0⟩], []⟩

def sampleBlocks : List Proto.CompactBlock :=
  [⟨1, [1], 10, [sampleTx 1 100 7], some ⟨1, 0⟩⟩, ⟨2, [2], 20, [sampleTx 2 7 0], some ⟨2, 0⟩⟩]

def sampleServer : Server where
  connect := .ok ()
  getLatestBlock := .ok 2
  getBlockRange s e := .ok ((sampleBlocks.filter fun b ↦ s ≤ b.height ∧ b.height ≤ e).map .ok)
  getTransaction _ txid := if txid = [1] then .ok [7] else .ok [0]
  getTreeState _ := .error "not served"
  getSubtreeRoots _ _ := .ok []

def sampleParams (s e : UInt32) : SyncParams := ⟨"uview", s, e, some "testnet", false, none, []⟩

def sampleView : View sampleCrypto := ⟨.testNetwork, (), false⟩

theorem sampleParams_view (s e : UInt32) : (sampleParams s e).view sampleCrypto = .ok sampleView :=
  rfl

/-- The scan of the small chain reports both transactions, and the note as spent. -/
example : ((runSyncInner sampleCrypto sampleRuntime sampleServer (sampleParams 1 2)).toOption.map
    fun out ↦ out.result.transactions.map fun t ↦
      (t.txid, t.orchardNotes.map fun n ↦ (n.isSpent, n.position))) =
    some [("01", [(true, some 0)]), ("02", [])] := by
  decide +kernel

end Sample

end LedgerZcash
