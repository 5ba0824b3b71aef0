import LedgerZcash.Sync.FirstLeaf
import LedgerZcash.Sync.Positions

/-!
# Tree sizes and truthful servers

`Chain.size pool h` is the number of a pool's commitments up to height `h`.  A truthful
server answers with the blocks, the frontiers and the completed shard roots of one chain,
up to its tip.  Against such a server a range of blocks is a slice of the pool's leaves
between two tree sizes (`collectCmxs_eq`), and the binary search for the pool's first leaf
finds it (`findPoolActivationHeight_eq`).
-/

namespace LedgerZcash

open Hex Collect Segments

/-! ## Sizes -/

namespace Chain

variable {c : Chain} {pool : Pool} {leaves : List Bytes32}

/-- The number of commitments of a pool up to a height. -/
def size (c : Chain) (pool : Pool) (h : Nat) : Nat := (poolActions pool (c.slice 0 h)).length

/-- The number of blocks up to a height. -/
def count (c : Chain) (h : Nat) : Nat := upTo Proto.CompactBlock.height c.blocks h

theorem slice_zero (h : Nat) : c.slice 0 h = c.blocks.take (c.count h) := by
  rw [count, ← filter_le_eq_take c.ascending, slice]
  simp

theorem slice_eq {s e : Nat} (hs : 0 < s) (hse : s ≤ e + 1) :
    c.slice s e = (c.blocks.take (c.count e)).drop (c.count (s - 1)) :=
  filter_between_eq c.ascending hs hse

theorem size_mono (c : Chain) (pool : Pool) : Monotone (c.size pool) := by
  intro h h' hle
  have hsub : (poolActions pool (c.slice 0 h)).Sublist (poolActions pool (c.slice 0 h')) :=
    (located_sublist (slice_sublist le_rfl hle)).flatMap _
  exact hsub.length_le

/-- The commitments of the chain, cut by block. -/
theorem exists_chunks (hl : poolLeaves pool c.blocks = .ok leaves) : ∃ chunks : List (List Bytes32),
    leaves = chunks.flatten ∧
      List.Forall₂ (fun b chunk ↦ pushBlockCmxs pool b = .ok chunk) c.blocks chunks := by
  obtain ⟨chunks, hchunks, hflat⟩ := bind_eq_ok.mp hl
  exact ⟨chunks, (pure_eq_ok.mp hflat).symm, mapM_eq_ok_iff.mp hchunks⟩

theorem poolLeaves_of_forall₂ {blocks : List Proto.CompactBlock} {chunks : List (List Bytes32)}
    (h : List.Forall₂ (fun b chunk ↦ pushBlockCmxs pool b = .ok chunk) blocks chunks) :
    poolLeaves pool blocks = .ok chunks.flatten :=
  bind_eq_ok.mpr ⟨chunks, mapM_eq_ok_iff.mpr h, rfl⟩

theorem length_of_poolLeaves {blocks : List Proto.CompactBlock}
    (hl : poolLeaves pool blocks = .ok leaves) :
    leaves.length = (poolActions pool blocks).length := by
  have h := congrArg List.length (map_val_of_poolLeaves hl)
  simpa only [List.length_map] using h

/-- A tree size is where the blocks above the height start. -/
theorem size_eq_offset {chunks : List (List Bytes32)}
    (h : List.Forall₂ (fun b chunk ↦ pushBlockCmxs pool b = .ok chunk) c.blocks chunks)
    (height : Nat) : c.size pool height = offset chunks (c.count height) := by
  have hslice := poolLeaves_of_forall₂ (List.forall₂_take (c.count height) h)
  rw [← slice_zero] at hslice
  rw [size, ← length_of_poolLeaves hslice, offset]

/-- The commitments of a range of heights are a slice of the leaves. -/
theorem poolLeaves_slice (hl : poolLeaves pool c.blocks = .ok leaves) {s e : Nat} (hs : 0 < s)
    (hse : s ≤ e + 1) : poolLeaves pool (c.slice s e) =
      .ok ((leaves.take (c.size pool e)).drop (c.size pool (s - 1))) := by
  obtain ⟨chunks, rfl, hchunks⟩ := exists_chunks hl
  have hle : c.count (s - 1) ≤ c.count e := upTo_mono _ _ (by omega)
  rw [slice_eq hs hse, size_eq_offset hchunks, size_eq_offset hchunks, ← flatten_slice chunks hle]
  exact poolLeaves_of_forall₂ (List.forall₂_drop _ (List.forall₂_take _ hchunks))

/-- A height that completes shard `s`: the first one with all its leaves. -/
def Completes (c : Chain) (pool : Pool) (s h : Nat) : Prop :=
  IsLeast {h | (s + 1) * shardSize ≤ c.size pool h} h

end Chain

/-! ## Truthful servers -/

/-- The chain starts without leaves, and a pool has at most as many as its tree holds. -/
structure Chain.Fits (c : Chain) (tip : Nat) : Prop where
  tip_lt : tip < u32Size
  genesis : ∀ pool, c.size pool 0 = 0
  capacity : ∀ pool, c.size pool tip ≤ 2 ^ 32

/-- The roots of all shards of a pool that are complete at the tip, in index order. -/
structure Chain.RootsUpTo (c : Chain) (pool : Pool) (tip : Nat) (roots : List Proto.SubtreeRoot) :
    Prop where
  length_eq : roots.length = c.size pool tip / shardSize
  completes : ∀ s root, roots[s]? = some root → c.Completes pool s root.completingBlockHeight
  rootHash : ∀ root ∈ roots, root.rootHash.length = 32

/-- A server that answers for the chain up to its tip: there is no tree state above it. -/
structure Truthful (S : ShardTrees) (srv : Server) (c : Chain) (tip : Nat) : Prop where
  blocks : c.Serves srv
  answers : ∀ h, 0 < h → h ≤ tip → ∃ ts, srv.getTreeState h = .ok ts
  states : ∀ h ts, srv.getTreeState h = .ok ts → h ≤ tip ∧ ∀ pool : Pool, ∃ bytes,
    Hex.decode (pool.treeStateHex ts) = .ok bytes ∧
      frontierLeafCount S bytes = .ok (c.size pool h)
  roots : ∀ pool, ∃ roots, srv.getSubtreeRoots pool 0 = .ok (roots.map .ok) ∧
    c.RootsUpTo pool tip roots

section Server

variable {S : ShardTrees} {srv : Server} {c : Chain} {tip : Nat} {pool : Pool}
  {leaves : List Bytes32}

theorem treeSizeAt_eq (ht : Truthful S srv c tip) (hf : c.Fits tip) {h : Nat} (hle : h ≤ tip) :
    treeSizeAt S srv pool h = .ok (c.size pool h) := by
  rcases Nat.eq_zero_or_pos h with rfl | hpos
  · rw [hf.genesis]
    rfl
  · obtain ⟨ts, hts⟩ := ht.answers h hpos hle
    obtain ⟨bytes, hbytes, hcount⟩ := (ht.states h ts hts).2 pool
    rw [treeSizeAt, if_neg (Nat.pos_iff_ne_zero.mp hpos), getTreeStateAt]
    exact bind_eq_ok.mpr ⟨ts, orFail_eq_ok.mpr hts, bind_eq_ok.mpr ⟨bytes, orFail_eq_ok.mpr hbytes,
      orFail_eq_ok.mpr hcount⟩⟩

/-- Scanning a range of blocks gives the leaves between two tree sizes. -/
theorem collectCmxs_eq (hs : c.Serves srv) (hl : poolLeaves pool c.blocks = .ok leaves)
    {start stop : Nat} (hpos : 0 < start) (hle : start ≤ stop + 1) :
    collectCmxs srv pool start stop =
      .ok ((leaves.take (c.size pool stop)).drop (c.size pool (start - 1))) := by
  obtain ⟨chunks, hchunks, hflat⟩ := bind_eq_ok.mp (Chain.poolLeaves_slice hl hpos hle)
  refine bind_eq_ok.mpr ⟨_, orFail_eq_ok.mpr (hs start stop), bind_eq_ok.mpr ⟨chunks, ?_, hflat⟩⟩
  rw [mapM_eq_ok_iff, List.forall₂_map_left_iff]
  refine (mapM_eq_ok_iff.mp hchunks).imp fun b chunk hb ↦ ?_
  exact bind_eq_ok.mpr ⟨b, rfl, hb⟩

theorem getSubtreeRoots_eq {roots : List Proto.SubtreeRoot}
    (h : srv.getSubtreeRoots pool 0 = .ok (roots.map .ok)) :
    getSubtreeRootsForProtocol srv pool 0 = .ok roots := by
  refine bind_eq_ok.mpr ⟨_, orFail_eq_ok.mpr h, ?_⟩
  rw [readStream, mapM_eq_ok_iff, List.forall₂_map_left_iff, List.forall₂_same]
  exact fun root _ ↦ rfl

/-! ## The pool's first leaf -/

/-- The search finds the first leaf of a pool that has one. -/
theorem findPoolActivationHeight_eq (ht : Truthful S srv c tip) (hf : c.Fits tip) {stop : Nat}
    (hstop : 0 < c.size pool stop) (htip : stop ≤ tip) :
    ∃ h, findPoolActivationHeight S srv pool stop = .ok h ∧
      IsLeast {h | 0 < c.size pool h} h := by
  have hsize : ∀ h ≤ stop, treeSizeAt S srv pool h = .ok (c.size pool h) := fun h hh ↦
    treeSizeAt_eq ht hf (hh.trans htip)
  obtain ⟨h, -, hfound⟩ := findPoolActivationHeight_of_mono hsize
    ((c.size_mono pool).monotoneOn _) hstop
  exact ⟨h, hfound⟩

end Server

end LedgerZcash
