import LedgerZcash.Sync.Coverage
import LedgerZcash.Sync.Splits

/-!
# Scanning without Sapling

With `orchard_only` the Sapling outputs are stripped before trial decryption, and a block
without Orchard or Ironwood actions is not looked at.  Neither changes what is said about
the two pools: the scan reports the transactions of the full scan that concern them, with
the same records and the same spent known nullifiers (`orchardOnly_restricts`), and the
blocks that the fast path skips would have contributed nothing.
-/

namespace LedgerZcash

open Hex Collect

/-! ## The fast path -/

section FastPath

variable {U : NoteCrypto}

/-- What the pipeline returns for a block that it looks at. -/
def slowPath (U : NoteCrypto) (threads : Nat) (ivks : PreparedIvks U) (orchardOnly : Bool)
    (network : Network) (block : Proto.CompactBlock) : TrialResult :=
  let height := asU32 block.height
  let compactTxs := block.vtx.map (toCompactTransaction orchardOnly)
  { height
    hash := displayHex block.hash
    time := block.time
    matchedTxids := trialDecryptBlock U threads compactTxs ivks height network
    txNullifiers := compactTxs.map fun tx ↦ (tx.txid, actionNullifiers tx.orchardActions)
    txIronwoodNullifiers := compactTxs.map fun tx ↦ (tx.txid, actionNullifiers tx.ironwoodActions)
    orchardTreeSizeAfter :=
      (block.chainMetadata.map fun m ↦ m.orchardCommitmentTreeSize.toNat).filter (0 < ·)
    ironwoodTreeSizeAfter :=
      (block.chainMetadata.map fun m ↦ m.ironwoodCommitmentTreeSize.toNat).filter (0 < ·)
    txOrchardActionCounts := compactTxs.map fun tx ↦ (tx.txid, asU32 tx.orchardActions.length)
    txIronwoodActionCounts :=
      compactTxs.map fun tx ↦ (tx.txid, asU32 tx.ironwoodActions.length) }

theorem processCompactBlock_of_looked {threads : Nat} {ivks : PreparedIvks U}
    {orchardOnly : Bool} {network : Network} {block : Proto.CompactBlock}
    (h : skipsBlock orchardOnly block = false) :
    processCompactBlock U threads ivks orchardOnly network block =
      slowPath U threads ivks orchardOnly network block := by
  simp only [processCompactBlock, h, Bool.false_eq_true, if_false]
  rfl

/-- The result matches nothing and spends nothing. -/
structure TrialResult.Idle (r : TrialResult) : Prop where
  matched : r.matchedTxids = []
  nullifiers : ∀ pool, ∀ e ∈ r.nullifiersOf pool, e.2 = []

theorem idle_slowPath {threads : Nat} {ivks : PreparedIvks U} {orchardOnly : Bool}
    {network : Network} {block : Proto.CompactBlock} (h : skipsBlock orchardOnly block = true) :
    (slowPath U threads ivks orchardOnly network block).Idle := by
  obtain ⟨rfl, hall⟩ := skipsBlock_eq_true.mp h
  constructor
  · simp only [slowPath, trialDecryptBlock_eq]
    rw [List.map_eq_nil_iff, List.filter_eq_nil_iff]
    intro tx htx
    obtain ⟨ctx, hctx, rfl⟩ := List.mem_map.mp htx
    obtain ⟨ha, hi⟩ := hall ctx hctx
    simp [trialMatches, saplingHits, orchardHits, ironwoodHits, hits, toCompactTransaction, ha, hi]
  · rintro pool e he
    cases pool <;>
      · obtain ⟨tx, htx, rfl⟩ := List.mem_map.mp he
        obtain ⟨ctx, hctx, rfl⟩ := List.mem_map.mp htx
        obtain ⟨ha, hi⟩ := hall ctx hctx
        simp [toCompactTransaction, actionNullifiers, ha, hi]

theorem idle_processCompactBlock {threads : Nat} {ivks : PreparedIvks U} {orchardOnly : Bool}
    {network : Network} {block : Proto.CompactBlock} (h : skipsBlock orchardOnly block = true) :
    (processCompactBlock U threads ivks orchardOnly network block).Idle := by
  simp only [processCompactBlock, h, if_true]
  refine ⟨rfl, fun pool e he ↦ ?_⟩
  cases pool <;> exact absurd he List.not_mem_nil

namespace TrialResult.Idle

variable {r : TrialResult} (h : r.Idle)
include h

theorem phase4Targets (rt : Runtime) (ours : List Bytes32) (alreadyFound : List String) :
    LedgerZcash.phase4Targets rt ours alreadyFound [r] = [] := by
  rw [List.eq_nil_iff_forall_not_mem]
  rintro ⟨r', txid⟩ hr
  obtain ⟨hr, -, n, -, pool, e, he, -, hn⟩ := mem_phase4Targets.mp hr
  cases List.mem_singleton.mp hr
  rw [h.nullifiers pool e he] at hn
  exact List.not_mem_nil hn

theorem flatMap_nullifiersOf (pool : Pool) : (r.nullifiersOf pool).flatMap Prod.snd = [] :=
  List.flatMap_eq_nil_iff.mpr (h.nullifiers pool)

end TrialResult.Idle

/-- Block results that agree except where both are idle. -/
def SameUpToIdle (r r' : TrialResult) : Prop := r = r' ∨ r.Idle ∧ r'.Idle

/-- Idle results contribute nothing to a scan. -/
theorem scanResults_congr (rt : Runtime) (srv : Server) (ufvk : U.Ufvk) (network : Network)
    (known : List String) {α : Type} (l : List α) (f g : α → TrialResult)
    (h : ∀ a ∈ l, SameUpToIdle (f a) (g a)) :
    scanResults U rt srv ufvk network known (l.map f) =
      scanResults U rt srv ufvk network known (l.map g) := by
  have hconcat : ∀ {β : Type} (k : TrialResult → List β), (∀ r : TrialResult, r.Idle → k r = []) →
      (l.map f).flatMap k = (l.map g).flatMap k := by
    intro β k hk
    rw [List.flatMap_map, List.flatMap_map]
    refine List.flatMap_congr fun a ha ↦ ?_
    rcases h a ha with heq | ⟨hf, hg⟩
    · rw [heq]
    · rw [hk _ hf, hk _ hg]
  have h2 : phase2Targets (l.map f) = phase2Targets (l.map g) :=
    hconcat _ fun r hr ↦ by rw [hr.matched]; rfl
  have h4 : ∀ ours found, phase4Targets rt ours found (l.map f) =
      phase4Targets rt ours found (l.map g) := by
    intro ours found
    refine hconcat _ fun r hr ↦ ?_
    have := hr.phase4Targets rt ours found
    rwa [phase4Targets, List.flatMap_singleton] at this
  have hspent : ∀ ours pool, spentIn ours (TrialResult.nullifiersOf pool) (l.map f) =
      spentIn ours (TrialResult.nullifiersOf pool) (l.map g) := by
    intro ours pool
    have := hconcat (fun r ↦ (r.nullifiersOf pool).flatMap Prod.snd)
      fun r hr ↦ hr.flatMap_nullifiersOf pool
    simp only [spentIn, List.flatMap_assoc, this]
  have ho : ∀ ours, spentIn ours TrialResult.txNullifiers (l.map f) =
      spentIn ours TrialResult.txNullifiers (l.map g) := fun ours ↦ hspent ours .orchard
  have hi : ∀ ours, spentIn ours TrialResult.txIronwoodNullifiers (l.map f) =
      spentIn ours TrialResult.txIronwoodNullifiers (l.map g) := fun ours ↦ hspent ours .ironwood
  simp only [scanResults, phase4, h2, h4, ho, hi, List.length_map]

/-- A scan whose skipped blocks had been looked at would have returned the same. -/
theorem fastPath_contributes_nothing (rt : Runtime) (srv : Server) (ufvk : U.Ufvk)
    (network : Network) (known : List String) (threads : Nat) (ivks : PreparedIvks U)
    (orchardOnly : Bool) (blocks : List Proto.CompactBlock) :
    scanResults U rt srv ufvk network known
        (blocks.map (processCompactBlock U threads ivks orchardOnly network)) =
      scanResults U rt srv ufvk network known
        (blocks.map (slowPath U threads ivks orchardOnly network)) := by
  refine scanResults_congr rt srv ufvk network known blocks _ _ fun block _ ↦ ?_
  cases hskip : skipsBlock orchardOnly block with
  | false => exact Or.inl (processCompactBlock_of_looked hskip)
  | true => exact Or.inr ⟨idle_processCompactBlock hskip, idle_slowPath hskip⟩

end FastPath

/-! ## The two modes -/

section Modes

variable {U : NoteCrypto} {srv : Server} {v : View U} {blocks : List Proto.CompactBlock}

/-- The same parameters with `orchard_only` set or not. -/
def SyncParams.inMode (p : SyncParams) (orchardOnly : Bool) : SyncParams := { p with orchardOnly }

/-- The same key and network, with Sapling or without. -/
def View.inMode (v : View U) (orchardOnly : Bool) : View U := { v with orchardOnly }

theorem view_inMode {p : SyncParams} (hv : p.view U = .ok v) (mode : Bool) :
    (p.inMode mode).view U = .ok (v.inMode mode) := by
  unfold SyncParams.view at hv ⊢
  simp only [SyncParams.inMode]
  cases hkeys : parseSyncKeys U p.network p.viewingKey with
  | error e => simp [hkeys, Except.map] at hv
  | ok keys =>
      simp only [hkeys, Except.map, Except.ok.injEq] at hv ⊢
      rw [← hv]
      rfl

/-- The transaction concerns the two pools: it matches in one of them, or it reveals a
nullifier that is known or was received in the blocks. -/
def Located.Concerns (srv : Server) (v : View U) (known : List String)
    (blocks : List Proto.CompactBlock) (l : Located) : Prop :=
  l.orchardMatched v = true ∨ l.ironwoodMatched v = true ∨
    ∃ pool, ∃ n ∈ revealedBy pool l.tx, n ∈ knownSet known ∨ ReceivedIn srv v blocks n

/-- What either mode tracks are the known nullifiers and the received ones. -/
theorem mem_tracked_inMode (ht : TrialExact srv v blocks) (mode : Bool) {K : Set Bytes32}
    {n : Bytes32} : n ∈ ((v.inMode mode).ledger srv).tracked (range blocks) K ↔
      n ∈ K ∨ ReceivedIn srv v blocks n :=
  or_congr Iff.rfl (mem_received (v := v.inMode mode) (complete_of_trialExact ht))

/-- Both modes see the same nullifiers spent. -/
theorem spent_inMode (ht : TrialExact srv v blocks) (mode mode' : Bool) (K : Set Bytes32) :
    ((v.inMode mode).ledger srv).spent (range blocks) K =
      ((v.inMode mode').ledger srv).spent (range blocks) K := by
  funext pool
  ext n
  simp only [Ledger.spent, Set.mem_inter_iff, mem_tracked_inMode ht]
  exact Iff.rfl

theorem matched_orchardOnly {l : Located} : l.matched (v.inMode true) = true ↔
    l.orchardMatched v = true ∨ l.ironwoodMatched v = true := by
  rw [Located.matched_iff]
  simp only [View.inMode, Bool.true_eq_false, false_and, false_or]
  exact Iff.rfl

/-- What matches without Sapling matches with it. -/
theorem matched_inMode {l : Located} (h : l.matched (v.inMode true) = true) :
    l.matched (v.inMode false) = true :=
  (Located.matched_iff _ _).mpr (Or.inr (matched_orchardOnly.mp h))

/-- What spends without Sapling spends with it. -/
theorem spends_inMode (ht : TrialExact srv v blocks) {K : Set Bytes32} {l : Located}
    (h : ((v.inMode true).ledger srv).Spends l
      (((v.inMode true).ledger srv).tracked (range blocks) K)) :
    ((v.inMode false).ledger srv).Spends l
      (((v.inMode false).ledger srv).tracked (range blocks) K) := by
  obtain ⟨pool, n, hn, ho⟩ := h
  exact ⟨pool, n, hn, (mem_tracked_inMode ht false).mpr ((mem_tracked_inMode ht true).mp ho)⟩

/-- Without Sapling, what is detected are the transactions that concern the two pools. -/
theorem mem_detected_orchardOnly (ht : TrialExact srv v blocks) {known : List String}
    {l : Located} :
    l ∈ ((v.inMode true).ledger srv).detected (range blocks) (knownSet known) ↔
      (l ∈ located blocks ∧ (l.opened srv v).isSome) ∧ l.Concerns srv v known blocks := by
  have hspends : ((v.inMode true).ledger srv).Spends l
      (((v.inMode true).ledger srv).tracked (range blocks) (knownSet known)) ↔
        ∃ pool, ∃ n ∈ revealedBy pool l.tx, n ∈ knownSet known ∨ ReceivedIn srv v blocks n :=
    exists_congr fun pool ↦ exists_congr fun n ↦ and_congr_right fun _ ↦ mem_tracked_inMode ht true
  rw [Located.Concerns, ← or_assoc, ← matched_orchardOnly, ← hspends, and_assoc]
  exact Iff.rfl

/-- What concerns the two pools is detected with Sapling, too. -/
theorem detected_inMode_subset (ht : TrialExact srv v blocks) (K : Set Bytes32) :
    ((v.inMode true).ledger srv).detected (range blocks) K ⊆
      ((v.inMode false).ledger srv).detected (range blocks) K := by
  rintro l ⟨hl, hread, hd⟩
  exact ⟨hl, hread, hd.imp matched_inMode (spends_inMode ht)⟩

/-- Such a transaction has an action, so its block is looked at in either mode. -/
theorem Located.Concerns.looked {known : List String} {l : Located}
    (h : l.Concerns srv v known blocks) (hl : l ∈ located blocks) (mode : Bool) :
    skipsBlock mode l.block = false := by
  rw [Bool.eq_false_iff]
  intro hskip
  obtain ⟨-, hall⟩ := skipsBlock_eq_true.mp hskip
  obtain ⟨ha, hi⟩ := hall l.tx (mem_located.mp hl).2
  rcases h with h | h | ⟨pool, n, hn, -⟩
  · simp [Located.orchardMatched, orchardHits, hits, Located.compact, toCompactTransaction, ha] at h
  · simp [Located.ironwoodMatched, ironwoodHits, hits, Located.compact, toCompactTransaction,
      hi] at h
  · cases pool <;> simp [revealedBy, Pool.actions, ha, hi] at hn

/-- The two modes place the notes of a block alike. -/
theorem blockFetchCtx_inMode {b : Proto.CompactBlock} (h : ∀ mode, skipsBlock mode b = false)
    (mode mode' : Bool) (txid : String) :
    blockFetchCtx ((v.inMode mode).blockResult b) txid =
      blockFetchCtx ((v.inMode mode').blockResult b) txid := by
  have hslow : ∀ m, (v.inMode m).blockResult b =
      slowPath U 1 (prepareIvksOf U v.ufvk) m v.network b :=
    fun m ↦ processCompactBlock_of_looked (h m)
  rw [hslow, hslow]
  simp only [blockFetchCtx, computeBlockPositionCtx, computeIronwoodBlockPositionCtx, slowPath,
    List.map_map]
  rfl

/-- So its record is the same. -/
theorem report_inMode {known : List String} {l : Located} (h : l.Concerns srv v known blocks)
    (hl : l ∈ located blocks) (mode mode' : Bool) (S : Pool → Set Bytes32)
    (x : List UInt8 × DecryptedTx) :
    l.report (v.inMode mode) S x = l.report (v.inMode mode') S x := by
  simp only [Located.report, Located.record,
    blockFetchCtx_inMode (fun m ↦ h.looked hl m) mode mode']

/-- The nullifiers that the two modes see spent are the same, once each. -/
theorem spentOf_inMode_perm (ht : TrialExact srv v blocks) {mode mode' : Bool}
    {results results' : List TrialResult} (hs : Scanned (v.inMode mode) blocks results)
    (hs' : Scanned (v.inMode mode') blocks results') (known : List String) (pool : Pool) :
    (spentOf srv (v.inMode mode) known results pool).Perm
      (spentOf srv (v.inMode mode') known results' pool) := by
  refine (List.perm_ext_iff_of_nodup (List.nodup_dedup _) (List.nodup_dedup _)).mpr fun n ↦ ?_
  have h : n ∈ spentOf srv (v.inMode mode) known results pool ↔
      n ∈ ((v.inMode mode).ledger srv).spent (range blocks) (knownSet known) pool :=
    hs.mem_spentOf
  have h' : n ∈ spentOf srv (v.inMode mode') known results' pool ↔
      n ∈ ((v.inMode mode').ledger srv).spent (range blocks) (knownSet known) pool :=
    hs'.mem_spentOf
  rw [spent_inMode ht mode mode'] at h
  exact h.trans h'.symm

/-- When the full scan succeeds, so does the one without Sapling. -/
theorem Unimpeded.orchardOnly {p : SyncParams} {rt : Runtime} {full : ScanOutput}
    (hu : UniqueTxids blocks) (ht : TrialExact srv v blocks) (hv : p.view U = .ok v)
    (hb : srv.getBlockRange p.startHeight.toNat p.endHeight.toNat = .ok (blocks.map .ok))
    (h : runSyncInner U rt srv (p.inMode false) = .ok full) :
    Unimpeded U srv (p.inMode true) (v.inMode true) blocks := by
  have hout := outcome_of_runSyncInner (view_inMode hv false) hb h
  obtain ⟨_, _, _, -, -, -, hr, -, -⟩ := runSyncInner_eq_ok h
  refine ⟨view_inMode hv true, connect_of_runSyncInner h, hb, known_of_scanResults hr, ?_⟩
  intro l hl hd
  exact hout.answered hu l hl (hd.imp matched_inMode fun h ↦ spends_inMode ht h.1)

/-- The spent known nullifiers of a scan, from what it sees spent. -/
theorem exists_spentKnown {p : SyncParams} {rt : Runtime} {out : ScanOutput}
    (hv : p.view U = .ok v)
    (hb : srv.getBlockRange p.startHeight.toNat p.endHeight.toNat = .ok (blocks.map .ok))
    (h : runSyncInner U rt srv p = .ok out) :
    ∃ results, Scanned v blocks results ∧ out.result.spentKnownNullifiers.Perm
      (((spentOf srv v p.knownNullifiers results .orchard ++
        spentOf srv v p.knownNullifiers results .ironwood).filter
          (· ∈ knownValues p.knownNullifiers)).map fun n ↦ Hex.encode n.1) := by
  obtain ⟨v', blocks', results, hv', hb', hs, hr, -, -⟩ := runSyncInner_eq_ok h
  cases hv.symm.trans hv'
  have hmap : blocks.map (@Except.ok String _) = blocks'.map .ok :=
    Except.ok.inj (hb.symm.trans hb')
  cases List.map_injective_iff.mpr (fun _ _ ↦ Except.ok.inj) hmap
  refine ⟨results, hs, ?_⟩
  rw [(scanResults_eq_ok hr).2.2.2]
  exact (((rt.shuffle_perm _).append (rt.shuffle_perm _)).filter _).map _

/-- Without Sapling a scan returns the transactions of the full scan that concern Orchard
or Ironwood, with the same records and the same spent known nullifiers; and the blocks it
skips would have changed nothing. -/
theorem orchardOnly_restricts {p : SyncParams} {rt : Runtime} {full : ScanOutput}
    (hv : p.view U = .ok v)
    (hb : srv.getBlockRange p.startHeight.toNat p.endHeight.toNat = .ok (blocks.map .ok))
    (hu : UniqueTxids blocks) (ht : TrialExact srv v blocks)
    (h : runSyncInner U rt srv (p.inMode false) = .ok full) (rt' : Runtime) :
    ∃ restricted, runSyncInner U rt' srv (p.inMode true) = .ok restricted ∧
      (∀ t, t ∈ restricted.result.transactions ↔ t ∈ full.result.transactions ∧
        ∃ l ∈ located blocks, l.txid = t.txid ∧ l.Concerns srv v p.knownNullifiers blocks) ∧
      (restricted.result.transactions.map ShieldedTransaction.txid).Nodup ∧
      restricted.result.spentKnownNullifiers.Perm full.result.spentKnownNullifiers ∧
      ∀ bs : List Proto.CompactBlock,
        scanResults U rt' srv v.ufvk v.network p.knownNullifiers
            (bs.map (processCompactBlock U rt'.threads (prepareIvksOf U v.ufvk) true v.network)) =
          scanResults U rt' srv v.ufvk v.network p.knownNullifiers
            (bs.map (slowPath U rt'.threads (prepareIvksOf U v.ufvk) true v.network)) := by
  obtain ⟨restricted, hr⟩ := (Unimpeded.orchardOnly hu ht hv hb h).exists_ok rt'
  have hfull := outcome_of_runSyncInner (view_inMode hv false) hb h
  have hrestricted := outcome_of_runSyncInner (view_inMode hv true) hb hr
  refine ⟨restricted, hr, fun t ↦ ?_, hrestricted.nodup hu, ?_,
    fun bs ↦ fastPath_contributes_nothing _ _ _ _ _ _ _ _ _⟩
  · constructor
    · intro hmem
      obtain ⟨l, hd, x, hx, rfl⟩ := hrestricted.sound t hmem
      obtain ⟨⟨hl, -⟩, hc⟩ := (mem_detected_orchardOnly ht).mp hd
      have hin := hfull.complete hu l (detected_inMode_subset ht _ hd) x hx
      rw [report_inMode hc hl false true, spent_inMode ht false true] at hin
      exact ⟨hin, l, hl, rfl, hc⟩
    · rintro ⟨hmem, l, hl, hid, hc⟩
      obtain ⟨l', hd, x, hx, rfl⟩ := hfull.sound t hmem
      obtain rfl := List.inj_on_of_nodup_map hu hl hd.1 (displayHex_inj.mp hid)
      have hin := hrestricted.complete hu l
        ((mem_detected_orchardOnly ht).mpr ⟨⟨hl, Option.isSome_of_mem hx⟩, hc⟩) x hx
      rw [report_inMode hc hl true false, spent_inMode ht true false] at hin
      exact hin
  · obtain ⟨results, hs, hperm⟩ := exists_spentKnown (view_inMode hv true) hb hr
    obtain ⟨results', hs', hperm'⟩ := exists_spentKnown (view_inMode hv false) hb h
    refine hperm.trans (List.Perm.trans ?_ hperm'.symm)
    exact (((spentOf_inMode_perm ht hs hs' _ .orchard).append
      (spentOf_inMode_perm ht hs hs' _ .ironwood)).filter _).map _

/-! ### A chain with a Sapling payment -/

/-- The toy crates with a Sapling key: a byte from 200 on is a Sapling output. -/
def saplingCrypto : NoteCrypto :=
  { sampleCrypto with
    saplingIvk := fun _ ↦ some fun _ ↦ ()
    saplingBatch := sampleBatch fun _ out ↦ if out.2.cmu = fill 32 0 then none else some 0
    decryptTransaction := fun network height raw ufvk ↦
      { sampleCrypto.decryptTransaction network height (raw.filter (· < 200)) ufvk with
        saplingOutputs := (raw.filter (200 ≤ ·)).map fun b ↦
          ⟨b.toNat, fill 43 b, [], .incoming, .sapling⟩ } }

/-- A transaction with one Sapling output. -/
def saplingTx (id cmu : UInt8) : Proto.CompactTx :=
  ⟨[id], [⟨List.replicate 32 cmu, List.replicate 32 0, List.replicate 52 0⟩], [], []⟩

/-- The third block of the chain pays the account in Sapling only. -/
def saplingBlock : Proto.CompactBlock := ⟨3, [3], 30, [saplingTx 3 9], some ⟨2, 0⟩⟩

def saplingServer : Server :=
  { sampleServer with
    getBlockRange := fun s e ↦ .ok (((sampleBlocks ++ [saplingBlock]).filter fun b ↦
      s ≤ b.height ∧ b.height ≤ e).map .ok)
    getTransaction := fun height txid ↦
      if txid = [3] then .ok [200] else sampleServer.getTransaction height txid }

def saplingView : View saplingCrypto := ⟨.testNetwork, (), false⟩

/-- The full scan reports the Sapling payment; the other takes the fast path past its block, and
reports the two transactions of Orchard alone. -/
theorem orchardOnly_restricts_sample :
    ∃ full restricted,
      runSyncInner saplingCrypto sampleRuntime saplingServer ((sampleParams 1 3).inMode false) =
        .ok full ∧
      runSyncInner saplingCrypto sampleRuntime saplingServer ((sampleParams 1 3).inMode true) =
        .ok restricted ∧
      full.result.transactions.map ShieldedTransaction.txid = ["01", "02", "03"] ∧
      restricted.result.transactions.map ShieldedTransaction.txid = ["01", "02"] ∧
      (∀ t, t ∈ restricted.result.transactions ↔ t ∈ full.result.transactions ∧
        ∃ l ∈ located (sampleBlocks ++ [saplingBlock]), l.txid = t.txid ∧
          l.Concerns saplingServer saplingView [] (sampleBlocks ++ [saplingBlock])) ∧
      skipsBlock true saplingBlock = true ∧
      scanResults saplingCrypto sampleRuntime saplingServer () .testNetwork []
          [processCompactBlock saplingCrypto 1 (prepareIvksOf saplingCrypto ()) true .testNetwork
            saplingBlock] =
        scanResults saplingCrypto sampleRuntime saplingServer () .testNetwork []
          [slowPath saplingCrypto 1 (prepareIvksOf saplingCrypto ()) true .testNetwork
            saplingBlock] := by
  obtain ⟨full, hfull, hids⟩ : ∃ full ∈ (runSyncInner saplingCrypto sampleRuntime saplingServer
      ((sampleParams 1 3).inMode false)).toOption,
      full.result.transactions.map ShieldedTransaction.txid = ["01", "02", "03"] := by
    decide +kernel
  obtain ⟨_, hrestricted, hids'⟩ : ∃ restricted ∈ (runSyncInner saplingCrypto sampleRuntime
      saplingServer ((sampleParams 1 3).inMode true)).toOption,
      restricted.result.transactions.map ShieldedTransaction.txid = ["01", "02"] := by
    decide +kernel
  rw [Option.mem_def, toOption_eq_some] at hfull hrestricted
  have hblocks : saplingServer.getBlockRange 1 3 =
      .ok ((sampleBlocks ++ [saplingBlock]).map .ok) := by decide +kernel
  obtain ⟨restricted, hr, htx, -, -, hfast⟩ := orchardOnly_restricts (v := saplingView)
    rfl hblocks (by unfold UniqueTxids; decide +kernel) (by unfold TrialExact; decide +kernel)
    hfull sampleRuntime
  obtain rfl := Except.ok.inj (hrestricted.symm.trans hr)
  exact ⟨full, _, hfull, hr, hids, hids', htx, rfl, hfast [saplingBlock]⟩

end Modes

end LedgerZcash
