import LedgerZcash.Lib.Segments
import LedgerZcash.Sync.Chain
import LedgerZcash.Sync.Witness

/-!
# Note positions

The scan counts a note's position backwards from the tree size after its block, and then
forwards by the actions of the transactions before it in the block; the witness
orchestrator counts commitments forwards from a tree size.  On a chain whose tree sizes
agree with its actions the two meet (`positions_agree`): with the transactions of the
chain as segments of its actions, a note of action `i` of transaction `j` has position
`offset j + i`.
-/

namespace LedgerZcash

open Hex Collect Segments

/-! ## Offsets inside a block -/

section StartMap

variable (counts : List (String × Nat)) (m : AList fun _ : String ↦ Nat) (k : Nat)

/-- The loop of `txActionStartMap`. -/
def startStep (acc : (AList fun _ : String ↦ Nat) × Nat) (entry : String × Nat) :
    (AList fun _ : String ↦ Nat) × Nat :=
  (acc.1.insert entry.1 acc.2, acc.2 + entry.2)

theorem snd_foldl_startStep :
    (counts.foldl startStep (m, k)).2 = k + (counts.map Prod.snd).sum := by
  induction counts generalizing m k with
  | nil => simp
  | cons e counts ih => rw [List.foldl_cons, startStep, ih, List.map_cons, List.sum_cons, add_assoc]

theorem lookup_foldl_startStep_of_notMem {txid : String} (h : txid ∉ counts.map Prod.fst) :
    (counts.foldl startStep (m, k)).1.lookup txid = m.lookup txid := by
  induction counts generalizing m k with
  | nil => rfl
  | cons e counts ih =>
      rw [List.map_cons, List.mem_cons, not_or] at h
      rw [List.foldl_cons, startStep, ih _ _ h.2, AList.lookup_insert_ne h.1]

/-- A txid that does not occur again starts after the counts before it. -/
theorem lookup_txActionStartMap {pre post : List (String × Nat)} {txid : String} {n : Nat}
    (h : txid ∉ post.map Prod.fst) :
    (txActionStartMap (pre ++ (txid, n) :: post)).lookup txid = some (pre.map Prod.snd).sum := by
  have hstep : txActionStartMap (pre ++ (txid, n) :: post) =
      ((pre ++ (txid, n) :: post).foldl startStep (∅, 0)).1 := rfl
  have hsum := snd_foldl_startStep pre ∅ 0
  rw [hstep, List.foldl_append, List.foldl_cons, startStep,
    lookup_foldl_startStep_of_notMem _ _ _ h, AList.lookup_insert, hsum, zero_add]

/-- Every txid of the counts has an offset. -/
theorem lookup_txActionStartMap_isSome {counts : List (String × Nat)} {txid : String}
    (h : txid ∈ counts.map Prod.fst) : ((txActionStartMap counts).lookup txid).isSome := by
  have key : ∀ (counts : List (String × Nat)) (m : AList fun _ : String ↦ Nat) (k : Nat),
      txid ∈ counts.map Prod.fst ∨ (m.lookup txid).isSome →
        ((counts.foldl startStep (m, k)).1.lookup txid).isSome := by
    intro counts
    induction counts with
    | nil => exact fun m k h ↦ h.resolve_left List.not_mem_nil
    | cons e counts ih =>
        intro m k h
        rw [List.foldl_cons, startStep]
        refine ih _ _ ?_
        by_cases he : txid = e.1
        · subst he
          exact Or.inr (by simp)
        · rw [AList.lookup_insert_ne he]
          exact h.imp_left fun h ↦ (List.mem_cons.mp h).resolve_left he
  exact key counts ∅ 0 (Or.inl h)

end StartMap

/-! ## Tree sizes of a chain -/

/-- The tree size of a pool in a block's metadata. -/
def Pool.treeSize : Pool → Proto.ChainMetadata → UInt32
  | .orchard, m => m.orchardCommitmentTreeSize
  | .ironwood, m => m.ironwoodCommitmentTreeSize

/-- The actions of a pool in a list of blocks. -/
def poolActions (pool : Pool) (blocks : List Proto.CompactBlock) :
    List Proto.CompactOrchardAction :=
  (located blocks).flatMap fun l ↦ pool.actions l.tx

/-- The metadata of every block counts the actions of the chain up to it. -/
def Chain.Metered (c : Chain) : Prop :=
  ∀ pre b post, c.blocks = pre ++ b :: post → ∃ m, b.chainMetadata = some m ∧
    ∀ pool, (Pool.treeSize pool m).toNat = (poolActions pool (pre ++ [b])).length

/-- The actions of a chain, cut by transaction. -/
def Chain.segments (c : Chain) (pool : Pool) : List (List Proto.CompactOrchardAction) :=
  (located c.blocks).map fun l ↦ pool.actions l.tx

theorem located_append (bs bs' : List Proto.CompactBlock) :
    located (bs ++ bs') = located bs ++ located bs' := by
  simp [located]

theorem located_singleton (b : Proto.CompactBlock) : located [b] = b.vtx.map (Located.mk b) := by
  simp [located]

theorem poolActions_append (pool : Pool) (bs bs' : List Proto.CompactBlock) :
    poolActions pool (bs ++ bs') = poolActions pool bs ++ poolActions pool bs' := by
  simp [poolActions, located_append]

theorem poolActions_singleton (pool : Pool) (b : Proto.CompactBlock) :
    poolActions pool [b] = b.vtx.flatMap pool.actions := by
  simp [poolActions, located_singleton, List.flatMap_map]

/-! ## The position context of a block -/

section Context

/-- The context's tree size and action offset for a pool. -/
def BlockFetchCtx.sizeBefore : Pool → BlockFetchCtx → Option Nat
  | .orchard, ctx => ctx.treeSizeBeforeBlock
  | .ironwood, ctx => ctx.ironwoodTreeSizeBeforeBlock

def BlockFetchCtx.start : Pool → BlockFetchCtx → Nat
  | .orchard, ctx => ctx.txActionStart
  | .ironwood, ctx => ctx.ironwoodTxActionStart

/-- The per-transaction action counts of a pool. -/
def TrialResult.actionCounts : Pool → TrialResult → List (String × Nat)
  | .orchard, r => r.txOrchardActionCounts
  | .ironwood, r => r.txIronwoodActionCounts

def TrialResult.sizeAfter : Pool → TrialResult → Option Nat
  | .orchard, r => r.orchardTreeSizeAfter
  | .ironwood, r => r.ironwoodTreeSizeAfter

variable {U : NoteCrypto} {v : View U}

theorem sizeBefore_blockFetchCtx (pool : Pool) (r : TrialResult) (txid : String) :
    (blockFetchCtx r txid).sizeBefore pool = treeSizeBefore (r.sizeAfter pool)
      (r.actionCounts pool) := by
  cases pool <;> rfl

theorem start_blockFetchCtx (pool : Pool) (r : TrialResult) (txid : String) :
    (blockFetchCtx r txid).start pool =
      ((txActionStartMap (r.actionCounts pool)).lookup txid).getD 0 := by
  cases pool <;> rfl

/-- A block with an action of some pool is not skipped. -/
theorem skipsBlock_of_action {b : Proto.CompactBlock} {tx : Proto.CompactTx} {pool : Pool}
    (htx : tx ∈ b.vtx) (h : pool.actions tx ≠ []) (orchardOnly : Bool) :
    skipsBlock orchardOnly b = false := by
  rw [Bool.eq_false_iff, ne_eq, skipsBlock_eq_true]
  rintro ⟨-, hall⟩
  obtain ⟨ho, hi⟩ := hall tx htx
  cases pool
  · exact h ho
  · exact h hi

theorem actionCounts_blockResult {b : Proto.CompactBlock} (h : skipsBlock v.orchardOnly b = false)
    (pool : Pool) : (v.blockResult b).actionCounts pool =
      b.vtx.map fun tx ↦ (displayHex tx.txid, asU32 (pool.actions tx).length) := by
  cases pool <;>
    simp [View.blockResult, processCompactBlock, h, TrialResult.actionCounts, toCompactTransaction,
      Pool.actions, Function.comp_def]

theorem sizeAfter_blockResult {b : Proto.CompactBlock} (h : skipsBlock v.orchardOnly b = false)
    (pool : Pool) : (v.blockResult b).sizeAfter pool =
      (b.chainMetadata.map fun m ↦ (Pool.treeSize pool m).toNat).filter (0 < ·) := by
  cases pool <;>
    simp [View.blockResult, processCompactBlock, h, TrialResult.sizeAfter, Pool.treeSize]

/-- Below the width of a counter, the counts add up to the number of actions. -/
theorem sum_actionCounts {pool : Pool} {txs : List Proto.CompactTx}
    (h : (txs.flatMap pool.actions).length < u32Size) :
    ((txs.map fun tx ↦ (displayHex tx.txid, asU32 (pool.actions tx).length)).map Prod.snd).sum =
      (txs.flatMap pool.actions).length := by
  induction txs with
  | nil => rfl
  | cons tx txs ih =>
      rw [List.flatMap_cons, List.length_append] at h ⊢
      rw [List.map_cons, List.map_cons, List.sum_cons, ih (by omega), asU32_of_lt (by omega)]

/-- A transaction that the scan may fetch, because it matched or because it reveals a
nullifier, has an offset in both pools. -/
theorem lookup_isSome {l : Located} (htx : l.tx ∈ l.block.vtx)
    (h : l.matched v = true ∨ ∃ pool, revealedBy pool l.tx ≠ []) (pool : Pool) :
    ((txActionStartMap ((v.blockResult l.block).actionCounts pool)).lookup l.txid).isSome := by
  have hs : skipsBlock v.orchardOnly l.block = false := by
    rcases h with h | ⟨pool', h⟩
    · have hmem : l.txid ∈ (v.blockResult l.block).matchedTxids := by
        rw [matchedTxids_blockResult]
        exact List.mem_map_of_mem (List.mem_filter.mpr ⟨List.mem_map.mpr ⟨l.tx, htx, rfl⟩, h⟩)
      rw [Bool.eq_false_iff]
      intro hs
      simp [View.blockResult, processCompactBlock, hs] at hmem
    · refine @skipsBlock_of_action _ _ pool' htx ?_ _
      intro hnil
      exact h (by simp [revealedBy, hnil])
  refine lookup_txActionStartMap_isSome ?_
  rw [actionCounts_blockResult hs, List.map_map]
  exact List.mem_map.mpr ⟨l.tx, htx, rfl⟩

end Context

/-! ## Where a transaction's actions are -/

section Place

variable {U : NoteCrypto} {v : View U} {c : Chain}

/-- A transaction of a chain, with what comes before it. -/
structure Place (c : Chain) (l : Located) where
  pre : List Proto.CompactBlock
  post : List Proto.CompactBlock
  blocks_eq : c.blocks = pre ++ l.block :: post
  txPre : List Proto.CompactTx
  txPost : List Proto.CompactTx
  vtx_eq : l.block.vtx = txPre ++ l.tx :: txPost

theorem exists_place {l : Located} (h : l ∈ located c.blocks) : Nonempty (Place c l) := by
  obtain ⟨hb, htx⟩ := mem_located.mp h
  obtain ⟨pre, post, hblocks⟩ := List.append_of_mem hb
  obtain ⟨txPre, txPost, hvtx⟩ := List.append_of_mem htx
  exact ⟨⟨pre, post, hblocks, txPre, txPost, hvtx⟩⟩

namespace Place

variable {l : Located} (w : Place c l)

/-- The index of the transaction in the chain. -/
def index : Nat := (located w.pre).length + w.txPre.length

theorem located_eq : located c.blocks =
    (located w.pre ++ w.txPre.map (Located.mk l.block)) ++
      l :: (w.txPost.map (Located.mk l.block) ++ located w.post) := by
  have hcons : ∀ bs : List Proto.CompactBlock,
      located (l.block :: bs) = located [l.block] ++ located bs :=
    fun bs ↦ located_append [l.block] bs
  rw [w.blocks_eq, located_append, hcons, located_singleton, w.vtx_eq]
  simp

theorem getElem?_located : (located c.blocks)[w.index]? = some l := by
  rw [w.located_eq, List.getElem?_append_right (by simp [index])]
  simp [index]

/-- The transaction's segment starts after the actions of the blocks before it and of the
transactions before it in its block. -/
theorem offset_eq (pool : Pool) : offset (c.segments pool) w.index =
    (poolActions pool w.pre).length + (w.txPre.flatMap pool.actions).length := by
  have htake : (located c.blocks).take w.index =
      located w.pre ++ w.txPre.map (Located.mk l.block) := by
    rw [w.located_eq, List.take_left' (by simp [index])]
  rw [offset, Chain.segments, ← List.map_take, htake]
  simp [poolActions, List.flatMap_def, List.map_map, Function.comp_def]

/-- The block's actions, before, in and after the transaction. -/
theorem poolActions_block (pool : Pool) : poolActions pool [l.block] =
    w.txPre.flatMap pool.actions ++ pool.actions l.tx ++ w.txPost.flatMap pool.actions := by
  rw [poolActions_singleton, w.vtx_eq]
  simp

theorem tx_mem_vtx {l : Located} (w : Place c l) : l.tx ∈ l.block.vtx := by
  rw [w.vtx_eq]
  exact List.mem_append_right _ List.mem_cons_self

/-- No later transaction of the block has the same txid. -/
theorem txid_notMem_post : displayHex l.tx.txid ∉ w.txPost.map fun tx ↦ displayHex tx.txid := by
  intro h
  obtain ⟨tx, htx, hid⟩ := List.mem_map.mp h
  have hu := c.unique
  rw [UniqueTxids, w.located_eq, List.map_append, List.nodup_append] at hu
  have hnd := hu.2.1
  rw [List.map_cons, List.nodup_cons] at hnd
  refine hnd.1 (List.mem_map.mpr ⟨⟨l.block, tx⟩, ?_, displayHex_inj.mp hid⟩)
  exact List.mem_append_left _ (List.mem_map_of_mem htx)

section Metered

variable (hm : c.Metered) {pool : Pool} (ha : pool.actions l.tx ≠ [])
include hm ha

/-- The tree size after the block, and what it leaves for the sizes of its parts. -/
theorem treeSize_eq : ∃ m, l.block.chainMetadata = some m ∧
    (Pool.treeSize pool m).toNat =
      (poolActions pool w.pre).length + (l.block.vtx.flatMap pool.actions).length ∧
    0 < (Pool.treeSize pool m).toNat ∧ (Pool.treeSize pool m).toNat < u32Size := by
  obtain ⟨m, hmeta, hsize⟩ := hm _ _ _ w.blocks_eq
  have hafter := hsize pool
  rw [poolActions_append, List.length_append, poolActions_singleton] at hafter
  refine ⟨m, hmeta, hafter, ?_, (Pool.treeSize pool m).toNat_lt⟩
  have hpos : 0 < (pool.actions l.tx).length := List.length_pos_iff.mpr ha
  rw [hafter, w.vtx_eq, List.flatMap_append, List.flatMap_cons, List.length_append,
    List.length_append]
  omega

/-- Counting back from the size after the block gives the actions of the blocks before. -/
theorem sizeBefore_eq : (blockFetchCtx (v.blockResult l.block) l.txid).sizeBefore pool =
    some (poolActions pool w.pre).length := by
  obtain ⟨m, hmeta, hsize, hpos, hlt⟩ := w.treeSize_eq hm ha
  have hs := skipsBlock_of_action w.tx_mem_vtx ha v.orchardOnly
  have hlen : (l.block.vtx.flatMap pool.actions).length < u32Size := by omega
  rw [sizeBefore_blockFetchCtx, sizeAfter_blockResult hs, actionCounts_blockResult hs, hmeta,
    treeSizeBefore, sum_actionCounts hlen, asU32_of_lt hlen, Option.map_some,
    Option.filter_some_pos (by simpa using hpos), Option.bind_some, if_neg (by omega)]
  congr 1
  omega

/-- The offset is the number of actions before the transaction in its block. -/
theorem start_eq : (blockFetchCtx (v.blockResult l.block) l.txid).start pool =
    (w.txPre.flatMap pool.actions).length := by
  obtain ⟨m, -, hsize, -, hlt⟩ := w.treeSize_eq hm ha
  have hs := skipsBlock_of_action w.tx_mem_vtx ha v.orchardOnly
  have hpre : (w.txPre.flatMap pool.actions).length < u32Size := by
    rw [w.vtx_eq, List.flatMap_append, List.length_append] at hsize
    omega
  rw [start_blockFetchCtx, actionCounts_blockResult hs, w.vtx_eq, List.map_append, List.map_cons,
    Located.txid, lookup_txActionStartMap, Option.getD_some, sum_actionCounts hpre]
  rw [List.map_map]
  exact w.txid_notMem_post

/-- The two counts meet at the start of the transaction's segment. -/
theorem sizeBefore_add_start :
    (poolActions pool w.pre).length + (blockFetchCtx (v.blockResult l.block) l.txid).start pool =
      offset (c.segments pool) w.index := by
  rw [w.start_eq hm ha, w.offset_eq]

end Metered

end Place

end Place

/-! ## The leaves of a pool -/

section Leaves

/-- The commitments that `pushBlockCmxs` collects over a list of blocks. -/
def poolLeaves (pool : Pool) (blocks : List Proto.CompactBlock) :
    Except Failure (List Bytes32) := do
  let chunks ← blocks.mapM (pushBlockCmxs pool)
  pure chunks.flatten

variable {pool : Pool} {blocks : List Proto.CompactBlock}

theorem pushBlockCmxs_eq_ok {b : Proto.CompactBlock} {cmxs : List Bytes32} :
    pushBlockCmxs pool b = .ok cmxs ↔
      cmxs.map Subtype.val = (b.vtx.flatMap pool.actions).map Proto.CompactOrchardAction.cmx := by
  rw [pushBlockCmxs, mapM_eq_ok_iff, eq_comm, ← List.forall₂_eq_eq_eq, List.forall₂_map_left_iff,
    List.forall₂_map_right_iff]
  simp only [orElse_eq_ok, Arr.tryFrom_eq_some]

theorem map_val_of_poolLeaves {leaves : List Bytes32} (h : poolLeaves pool blocks = .ok leaves) :
    leaves.map Subtype.val =
      (poolActions pool blocks).map Proto.CompactOrchardAction.cmx := by
  obtain ⟨chunks, hchunks, hflat⟩ := bind_eq_ok.mp h
  rw [← pure_eq_ok.mp hflat]
  have hall := mapM_eq_ok_iff.mp hchunks
  clear h hflat hchunks
  induction hall with
  | nil => rfl
  | @cons b chunk bs chunks hb _ ih =>
      have hcons : poolActions pool (b :: bs) = poolActions pool [b] ++ poolActions pool bs :=
        poolActions_append pool [b] bs
      rw [List.flatten_cons, List.map_append, ih, pushBlockCmxs_eq_ok.mp hb, hcons,
        poolActions_singleton, List.map_append]

/-- Leaf `i` of a transaction's segment is the commitment of its action `i`. -/
theorem getElem?_leaves {c : Chain} {leaves : List Bytes32}
    (h : poolLeaves pool c.blocks = .ok leaves) {l : Located} {j i : Nat}
    (hj : (located c.blocks)[j]? = some l) {a : Proto.CompactOrchardAction} {cmx : Bytes32}
    (ha : (pool.actions l.tx)[i]? = some a) (hcmx : a.cmx = cmx.1) :
    leaves[offset (c.segments pool) j + i]? = some cmx := by
  have hseg : (c.segments pool)[j]? = some (pool.actions l.tx) := by
    rw [Chain.segments, List.getElem?_map, hj, Option.map_some]
  have hflat : (c.segments pool).flatten = poolActions pool c.blocks := by
    rw [Chain.segments, poolActions, List.flatMap_def]
  have hget := getElem?_flatten hseg (List.getElem?_eq_some_iff.mp ha).1
  rw [hflat, ha] at hget
  have hmap := congrArg (fun l ↦ l[offset (c.segments pool) j + i]?) (map_val_of_poolLeaves h)
  simp only [List.getElem?_map, hget, Option.map_some, Option.map_eq_some_iff] at hmap
  obtain ⟨leaf, hleaf, hval⟩ := hmap
  rw [hleaf, Subtype.ext (hval.trans hcmx)]

end Leaves

/-! ## Positions of reported notes -/

section Reported

variable {U : NoteCrypto} {srv : Server} {v : View U} {c : Chain} {pool : Pool}

/-- The outputs of the Orchard family that `decrypt_transaction` returns. -/
def Pool.upstreamOutputs : Pool → UpstreamDecryptedTransaction → List UpstreamOrchardOutput
  | .orchard, d => d.orchardOutputs
  | .ironwood, d => d.ironwoodOutputs

/-- Upstream numbers each decrypted output by its action, at most one an action, and the
compact transaction lists all the actions in order, each with its commitment. -/
def IndexedByAction (srv : Server) (v : View U) (blocks : List Proto.CompactBlock) : Prop :=
  ∀ l ∈ located blocks, ∀ raw ∈ (srv.getTransaction l.height l.tx.txid).toOption,
    ∀ tx ∈ (U.readTransaction v.network l.height raw).toOption, ∀ pool : Pool,
      ((pool.upstreamOutputs (U.decryptTransaction v.network l.height tx v.ufvk)).map
        UpstreamOrchardOutput.index).Nodup ∧
      ∀ f ∈ pool.upstreamOutputs (U.decryptTransaction v.network l.height tx v.ufvk),
        ∃ a, (pool.actions l.tx)[f.index]? = some a ∧ a.cmx = f.note.cmx.1

/-- What full decryption returns is what upstream returned, output by output. -/
theorem Located.exists_decrypted {l : Located} {x : List UInt8 × DecryptedTx}
    (hx : l.opened srv v = some x) :
    ∃ tx, U.readTransaction v.network l.height x.1 = .ok tx ∧ ∀ pool : Pool,
      pool.outputs x.2 =
        (pool.upstreamOutputs (U.decryptTransaction v.network l.height tx v.ufvk)).map
          (mapOrchardFamilyOutput U · v.ufvk) := by
  obtain ⟨-, hd⟩ := opened_eq_some.mp hx
  unfold fullDecryptTxWithUfvk at hd
  obtain ⟨bytes, hbytes, hread⟩ := bind_eq_ok.mp hd
  obtain ⟨tx, htx, hout⟩ := bind_eq_ok.mp hread
  rw [mapError_eq_ok] at hbytes htx
  rw [decode_encode] at hbytes
  obtain rfl := Except.ok.inj hbytes
  refine ⟨tx, htx, fun pool ↦ ?_⟩
  rw [← pure_eq_ok.mp hout]
  cases pool <;> rfl

/-- The position of an output in the tree: none when it was not paid to the account. -/
def leafPosition (start : Nat) (f : UpstreamOrchardOutput) : Option Nat :=
  if f.transferType = .outgoing then none else some (start + f.index)

theorem positions_report (S : Pool → Set Bytes32) (l : Located) (x : List UInt8 × DecryptedTx) :
    ((l.report v S x).notes pool).map ShieldedNote.position = (pool.outputs x.2).map fun o ↦
      ((blockFetchCtx (v.blockResult l.block) l.txid).sizeBefore pool).bind fun size ↦
        o.actionIndex.map fun i ↦
          size + (blockFetchCtx (v.blockResult l.block) l.txid).start pool + i := by
  cases pool <;>
    simp [ShieldedTransaction.notes, Located.report, Pool.outputs, Function.comp_def, familyNote,
      orchardFamilyNote, BlockFetchCtx.sizeBefore, BlockFetchCtx.start]

/-- On a metered chain, every note of a report is positioned by its action's place in the
concatenation of the pool's actions. -/
theorem Place.positions_eq {l : Located} (w : Place c l) (hm : c.Metered)
    {outs : List UpstreamOrchardOutput} {x : List UInt8 × DecryptedTx}
    (houts : pool.outputs x.2 = outs.map (mapOrchardFamilyOutput U · v.ufvk))
    (hidx : ∀ f ∈ outs, f.index < (pool.actions l.tx).length) (S : Pool → Set Bytes32) :
    ((l.report v S x).notes pool).map ShieldedNote.position =
      outs.map (leafPosition (offset (c.segments pool) w.index)) := by
  rw [positions_report, houts, List.map_map]
  refine List.map_congr_left fun f hf ↦ ?_
  have hlen := hidx f hf
  have ha : pool.actions l.tx ≠ [] := List.length_pos_iff.mp (Nat.zero_lt_of_lt hlen)
  obtain ⟨m, -, hsize, -, hlt⟩ := w.treeSize_eq hm ha
  have hindex : asU32 f.index = f.index := by
    refine asU32_of_lt ?_
    rw [w.vtx_eq, List.flatMap_append, List.flatMap_cons, List.length_append,
      List.length_append] at hsize
    omega
  rw [Function.comp_apply, w.sizeBefore_eq hm ha, Option.bind_some, leafPosition]
  by_cases hout : f.transferType = .outgoing
  · simp [mapOrchardFamilyOutput, hout]
  · simp [mapOrchardFamilyOutput, hout, hindex, w.sizeBefore_add_start hm ha]

/-- The positions that a record assigns to its notes of a pool. -/
def ShieldedTransaction.positions (pool : Pool) (t : ShieldedTransaction) : List Nat :=
  (t.notes pool).filterMap ShieldedNote.position

/-- A reported transaction is transaction `j` of the chain, and its notes are positioned at
the leaves of their actions. -/
structure AtLeaves (srv : Server) (v : View U) (c : Chain) (leaves : Pool → List Bytes32)
    (t : ShieldedTransaction) (l : Located) (j : Nat) (tx : U.Transaction) : Prop where
  txid : t.txid = l.txid
  tx_at : (located c.blocks)[j]? = some l
  read : ∃ raw, srv.getTransaction l.height l.tx.txid = .ok raw ∧
    U.readTransaction v.network l.height raw = .ok tx
  positions : ∀ pool, (t.notes pool).map ShieldedNote.position =
    (pool.upstreamOutputs (U.decryptTransaction v.network l.height tx v.ufvk)).map
      (leafPosition (offset (c.segments pool) j))
  leaf : ∀ pool, ∀ f ∈ pool.upstreamOutputs (U.decryptTransaction v.network l.height tx v.ufvk),
    f.index < (pool.actions l.tx).length ∧
      (leaves pool)[offset (c.segments pool) j + f.index]? = some f.note.cmx

theorem exists_atLeaves {blocks : List Proto.CompactBlock} {leaves : Pool → List Bytes32}
    (hm : c.Metered) (hi : IndexedByAction srv v blocks)
    (hleaves : ∀ pool, poolLeaves pool c.blocks = .ok (leaves pool)) {l : Located}
    (hl : l ∈ located blocks) (hc : l ∈ located c.blocks) {x : List UInt8 × DecryptedTx}
    (hx : l.opened srv v = some x) (S : Pool → Set Bytes32) :
    ∃ j tx, AtLeaves srv v c leaves (l.report v S x) l j tx := by
  obtain ⟨w⟩ := exists_place hc
  obtain ⟨tx, htx, houts⟩ := Located.exists_decrypted hx
  obtain ⟨hraw, -⟩ := Located.opened_eq_some.mp hx
  have hidx := hi l hl x.1 (toOption_eq_some.mpr hraw) tx (toOption_eq_some.mpr htx)
  have hlt : ∀ pool : Pool, ∀ f ∈ pool.upstreamOutputs
      (U.decryptTransaction v.network l.height tx v.ufvk),
      f.index < (pool.actions l.tx).length := by
    intro pool f hf
    obtain ⟨a, ha, -⟩ := (hidx pool).2 f hf
    exact (List.getElem?_eq_some_iff.mp ha).1
  refine ⟨w.index, tx, rfl, w.getElem?_located, ⟨x.1, hraw, htx⟩, fun pool ↦ ?_, ?_⟩
  · exact w.positions_eq hm (houts pool) (hlt pool) S
  · intro pool f hf
    obtain ⟨a, ha, hcmx⟩ := (hidx pool).2 f hf
    exact ⟨hlt pool f hf, getElem?_leaves (hleaves pool) w.getElem?_located ha hcmx⟩

namespace AtLeaves

variable {leaves : Pool → List Bytes32} {t : ShieldedTransaction} {l : Located} {j : Nat}
  {tx : U.Transaction}

theorem positions_eq (h : AtLeaves srv v c leaves t l j tx) (pool : Pool) : t.positions pool =
    (pool.upstreamOutputs (U.decryptTransaction v.network l.height tx v.ufvk)).filterMap
      (leafPosition (offset (c.segments pool) j)) := by
  have hmap := congrArg (List.filterMap id) (h.positions pool)
  rw [List.filterMap_map, List.filterMap_map] at hmap
  exact hmap

/-- A position lies in the segment of its transaction. -/
theorem mem_segment (h : AtLeaves srv v c leaves t l j tx) {pool : Pool} {pos : Nat}
    (hpos : pos ∈ t.positions pool) :
    offset (c.segments pool) j ≤ pos ∧ pos < offset (c.segments pool) (j + 1) := by
  rw [h.positions_eq, List.mem_filterMap] at hpos
  obtain ⟨f, hf, hsome⟩ := hpos
  have hlt : f.index < (pool.actions l.tx).length := (h.leaf pool f hf).1
  have hseg : (c.segments pool)[j]? = some (pool.actions l.tx) := by
    rw [Chain.segments, List.getElem?_map, h.tx_at, Option.map_some]
  rw [leafPosition, Option.ite_none_left_eq_some] at hsome
  obtain ⟨-, hsome⟩ := hsome
  cases hsome
  rw [offset_succ hseg]
  omega

theorem nodup_positions (h : AtLeaves srv v c leaves t l j tx) {pool : Pool}
    (hnd : ((pool.upstreamOutputs (U.decryptTransaction v.network l.height tx v.ufvk)).map
      UpstreamOrchardOutput.index).Nodup) : (t.positions pool).Nodup := by
  rw [h.positions_eq]
  refine List.Nodup.of_map (· - offset (c.segments pool) j) (hnd.sublist ?_)
  refine map_filterMap_sublist (fun f pos hpos ↦ ?_) _
  rw [leafPosition, Option.ite_none_left_eq_some] at hpos
  obtain ⟨-, hpos⟩ := hpos
  cases hpos
  exact Nat.add_sub_cancel_left _ _

/-- Different transactions of the chain have no position in common. -/
theorem disjoint {t' : ShieldedTransaction} {l' : Located} {j' : Nat} {tx' : U.Transaction}
    (h : AtLeaves srv v c leaves t l j tx) (h' : AtLeaves srv v c leaves t' l' j' tx')
    (hne : t.txid ≠ t'.txid) (pool : Pool) :
    (t.positions pool).Disjoint (t'.positions pool) := by
  intro pos hpos hpos'
  obtain ⟨hlo, hhi⟩ := h.mem_segment hpos
  obtain ⟨hlo', hhi'⟩ := h'.mem_segment hpos'
  rcases lt_trichotomy j j' with hlt | rfl | hlt
  · have hmono : offset (c.segments pool) (j + 1) ≤ _ := offset_mono _ (Nat.succ_le_of_lt hlt)
    omega
  · have hl : l = l' := Option.some.inj (h.tx_at.symm.trans h'.tx_at)
    exact hne (by rw [h.txid, h'.txid, hl])
  · have hmono : offset (c.segments pool) (j' + 1) ≤ _ := offset_mono _ (Nat.succ_le_of_lt hlt)
    omega

/-- A position lies between the tree sizes before and after its block. -/
theorem mem_block (h : AtLeaves srv v c leaves t l j tx) : ∃ pre post,
    c.blocks = pre ++ l.block :: post ∧ ∀ pool, ∀ pos ∈ t.positions pool,
      (poolActions pool pre).length ≤ pos ∧ pos < (poolActions pool (pre ++ [l.block])).length := by
  obtain ⟨w⟩ := exists_place (List.mem_of_getElem? h.tx_at)
  have hj : j = w.index := by
    have hnd : (located c.blocks).Nodup := List.Nodup.of_map _ c.unique
    obtain ⟨hlt, hget⟩ := List.getElem?_eq_some_iff.mp h.tx_at
    obtain ⟨hlt', hget'⟩ := List.getElem?_eq_some_iff.mp w.getElem?_located
    exact (hnd.getElem_inj_iff).mp (hget.trans hget'.symm)
  refine ⟨w.pre, w.post, w.blocks_eq, fun pool pos hpos ↦ ?_⟩
  obtain ⟨hlo, hhi⟩ := h.mem_segment hpos
  have hseg : (c.segments pool)[j]? = some (pool.actions l.tx) := by
    rw [Chain.segments, List.getElem?_map, h.tx_at, Option.map_some]
  rw [offset_succ hseg, hj, w.offset_eq] at hhi
  rw [hj, w.offset_eq] at hlo
  rw [poolActions_append, w.poolActions_block]
  simp only [List.length_append]
  omega

end AtLeaves

/-- Positions agree with the leaf order: every reported note stands at the leaf of its
action, inside its block and apart from all others, and no offset is missing. -/
theorem positions_agree {rt : Runtime} {p : SyncParams} {out : ScanOutput}
    {leaves : Pool → List Bytes32} (hs : c.Serves srv) (hm : c.Metered)
    (hleaves : ∀ pool, poolLeaves pool c.blocks = .ok (leaves pool)) (hv : p.view U = .ok v)
    (hi : IndexedByAction srv v (c.slice p.startHeight.toNat p.endHeight.toNat))
    (h : runSyncInner U rt srv p = .ok out) :
    (∀ t ∈ out.result.transactions,
      ∃ l ∈ located (c.slice p.startHeight.toNat p.endHeight.toNat), ∃ j tx,
        AtLeaves srv v c leaves t l j tx ∧
        ∃ pre post m, c.blocks = pre ++ l.block :: post ∧ l.block.chainMetadata = some m ∧
          ∀ pool, ∀ pos ∈ t.positions pool,
            (poolActions pool pre).length ≤ pos ∧ pos < (Pool.treeSize pool m).toNat) ∧
    (∀ pool, (out.result.transactions.flatMap (ShieldedTransaction.positions pool)).Nodup) ∧
    ∀ l ∈ located (c.slice p.startHeight.toNat p.endHeight.toNat),
      (l.matched v = true ∨ ∃ pool, revealedBy pool l.tx ≠ []) → ∀ pool,
        ((txActionStartMap ((v.blockResult l.block).actionCounts pool)).lookup l.txid).isSome := by
  have ho := outcome_of_runSyncInner hv (hs _ _) h
  have hsub : ∀ l ∈ located (c.slice p.startHeight.toNat p.endHeight.toNat),
      l ∈ located c.blocks := fun l hl ↦ (Chain.located_sublist List.filter_sublist).subset hl
  have hat : ∀ t ∈ out.result.transactions,
      ∃ l ∈ located (c.slice p.startHeight.toNat p.endHeight.toNat), ∃ j tx,
        AtLeaves srv v c leaves t l j tx := by
    intro t ht
    obtain ⟨l, ⟨hl, -, -⟩, x, hx, rfl⟩ := ho.sound t ht
    obtain ⟨j, tx, hat⟩ := exists_atLeaves hm hi hleaves hl (hsub l hl) hx _
    exact ⟨l, hl, j, tx, hat⟩
  refine ⟨fun t ht ↦ ?_, fun pool ↦ ?_, fun l hl hm pool ↦ ?_⟩
  · obtain ⟨l, hl, j, tx, ht⟩ := hat t ht
    obtain ⟨pre, post, hblocks, hpos⟩ := ht.mem_block
    obtain ⟨m, hmeta, hsize⟩ := hm _ _ _ hblocks
    refine ⟨l, hl, j, tx, ht, pre, post, m, hblocks, hmeta, fun pool pos h ↦ ?_⟩
    rw [hsize]
    exact hpos pool pos h
  · rw [List.nodup_flatMap]
    have hids := List.pairwise_map.mp (ho.nodup (Chain.uniqueTxids_slice _ _))
    refine ⟨fun t ht ↦ ?_, hids.imp_of_mem fun {t t'} ht ht' hne ↦ ?_⟩
    · obtain ⟨l, hl, j, tx, ht⟩ := hat t ht
      obtain ⟨raw, hraw, htx⟩ := ht.read
      exact ht.nodup_positions
        (hi l hl raw (toOption_eq_some.mpr hraw) tx (toOption_eq_some.mpr htx) pool).1
    · obtain ⟨l, -, j, tx, ht⟩ := hat t ht
      obtain ⟨l', -, j', tx', ht'⟩ := hat t' ht'
      exact ht.disjoint ht' hne pool
  · exact lookup_isSome (mem_located.mp hl).2 hm pool

end Reported

section Sample

theorem sampleChain_serves : sampleChain.Serves sampleServer := fun _ _ ↦ rfl

theorem sampleChain_metered : sampleChain.Metered := by
  intro pre b post h
  rcases pre with - | ⟨b₁, - | ⟨b₂, pre⟩⟩
  · obtain ⟨rfl, -⟩ := List.cons.inj h
    exact ⟨_, rfl, by decide⟩
  · obtain ⟨rfl, hrest⟩ := List.cons.inj h
    obtain ⟨rfl, -⟩ := List.cons.inj hrest
    exact ⟨_, rfl, by decide⟩
  · obtain ⟨-, hrest⟩ := List.cons.inj h
    exact absurd (List.cons.inj hrest).2.symm (by simp)

def sampleLeaves : Pool → List Bytes32
  | .orchard => [fill 32 7, fill 32 0]
  | .ironwood => []

/-- On the small chain the note stands at leaf 0. -/
theorem positions_agree_sample :
    ∃ out, runSyncInner sampleCrypto sampleRuntime sampleServer (sampleParams 1 2) = .ok out ∧
      (∀ t ∈ out.result.transactions, ∃ l ∈ located sampleBlocks, ∃ j tx,
        AtLeaves sampleServer sampleView sampleChain sampleLeaves t l j tx) ∧
      ∀ pool, (out.result.transactions.flatMap (ShieldedTransaction.positions pool)).Nodup := by
  obtain ⟨out, h⟩ := exists_ok_of_isOk
    (show (runSyncInner sampleCrypto sampleRuntime sampleServer (sampleParams 1 2)).isOk = true by
      decide +kernel)
  have hleaves : ∀ pool, poolLeaves pool sampleChain.blocks = .ok (sampleLeaves pool) := by
    decide +kernel
  have hagree := positions_agree sampleChain_serves sampleChain_metered hleaves
    (sampleParams_view 1 2) (by unfold IndexedByAction; decide +kernel) h
  refine ⟨out, h, fun t ht ↦ ?_, hagree.2.1⟩
  obtain ⟨l, hl, j, tx, hat, -⟩ := hagree.1 t ht
  exact ⟨l, hl, j, tx, hat⟩

end Sample

end LedgerZcash
