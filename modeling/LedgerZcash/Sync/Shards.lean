import LedgerZcash.Sync.LeafBounds
import LedgerZcash.Sync.TreeSize

/-!
# Shard leaves

A shard's leaves are cut out of a scan that starts at the previous shard's completing
block — or at the pool's first leaf — and ends at the shard's own, or at the anchor.
Against a truthful server the cut is always in range and aligned (`shard_leaves_aligned`).
The roots, however, are those of the shards complete at the tip: what is handed over ends
with the anchor exactly when no shard completes between the two (`inputs_upTo_iff`).
-/

namespace LedgerZcash

open Hex Collect Segments

section Shards

variable {S : ShardTrees} {srv : Server} {c : Chain} {tip anchor s : Nat} {pool : Pool}
  {leaves : List Bytes32} {roots : List Proto.SubtreeRoot}

/-! ## Completed shards -/

theorem succ_mul_shardSize (s : Nat) : (s + 1) * shardSize = s * shardSize + shardSize :=
  Nat.succ_mul s shardSize

theorem shardSize_pos : 0 < shardSize := by decide

namespace Chain

/-- The roots are those of the shards that end at or below the tip's tree size. -/
theorem RootsUpTo.lt_length_iff (h : c.RootsUpTo pool tip roots) :
    s < roots.length ↔ (s + 1) * shardSize ≤ c.size pool tip := by
  rw [h.length_eq, ← Nat.succ_le_iff, Nat.le_div_iff_mul_le (by decide)]

theorem RootsUpTo.length_lt (h : c.RootsUpTo pool tip roots) (hf : c.Fits tip) :
    roots.length < u32Size := by
  have hcap := hf.capacity pool
  have hlt : c.size pool tip / shardSize ≤ 2 ^ 32 / shardSize := Nat.div_le_div_right hcap
  rw [← h.length_eq] at hlt
  exact lt_of_le_of_lt hlt (by decide)

/-- A completing height up to the tip is read as it is. -/
theorem Completes.asU32_eq {h : Nat} (hc : c.Completes pool s h) (hf : c.Fits tip)
    (hs : (s + 1) * shardSize ≤ c.size pool tip) : asU32 h = h ∧ h ≤ tip := by
  have hle : h ≤ tip := hc.2 hs
  exact ⟨asU32_of_lt (lt_of_le_of_lt hle hf.tip_lt), hle⟩

theorem Completes.pos {h : Nat} (hc : c.Completes pool s h) (hf : c.Fits tip) : 0 < h := by
  rcases Nat.eq_zero_or_pos h with rfl | hpos
  · have hzero : (s + 1) * shardSize ≤ c.size pool 0 := hc.1
    rw [hf.genesis, succ_mul_shardSize] at hzero
    exact absurd (Nat.le_trans (Nat.le_add_left _ _) hzero) (Nat.not_le_of_lt shardSize_pos)
  · exact hpos

/-- The index of a shard that starts below the anchor's tree size is a `u32`. -/
theorem Fits.shard_lt (hf : c.Fits tip) (ha : anchor ≤ tip)
    (hs : s * shardSize < c.size pool anchor) : s < u32Size := by
  have hcap : c.size pool anchor ≤ 2 ^ 32 := (c.size_mono pool ha).trans (hf.capacity pool)
  have hle : s ≤ s * shardSize := Nat.le_mul_of_pos_right s shardSize_pos
  exact lt_of_le_of_lt hle (lt_of_lt_of_le hs hcap)

/-- Just below its completing height a shard is not full. -/
theorem Completes.size_pred_lt {h : Nat} (hc : c.Completes pool s h) (hpos : 0 < h) :
    c.size pool (h - 1) < (s + 1) * shardSize := by
  by_contra hge
  have hle : h ≤ h - 1 := hc.2 (Nat.le_of_not_lt hge)
  omega

end Chain

/-! ## The blocks scanned for a shard -/

/-- Everything that is proved about a shard's scan. -/
structure ScanEnds (c : Chain) (pool : Pool) (tip s endPos stop : Nat) : Prop where
  le_tip : stop ≤ tip
  started : s * shardSize < c.size pool stop
  start_le : s * shardSize ≤ endPos
  end_le : endPos ≤ c.size pool stop

/-- The scan ends where the shard's leaves do. -/
theorem scanEnds_shardEndHeight (hf : c.Fits tip) (hr : c.RootsUpTo pool tip roots)
    (ha : anchor ≤ tip) (hs : s * shardSize < c.size pool anchor) :
    ScanEnds c pool tip s (shardEnd s (asU32 roots.length) (c.size pool anchor))
      (shardEndHeight roots anchor s) := by
  rw [asU32_of_lt (hr.length_lt hf), shardEnd, shardEndHeight, asU32_of_lt (hr.length_lt hf)]
  by_cases hlt : s < roots.length
  · have hroot : roots[s]? = some roots[s] := List.getElem?_eq_getElem hlt
    have hc := hr.completes s _ hroot
    obtain ⟨heq, hle⟩ := hc.asU32_eq hf (hr.lt_length_iff.mp hlt)
    have hsize : (s + 1) * shardSize ≤ c.size pool roots[s].completingBlockHeight := hc.1
    rw [succ_mul_shardSize] at hsize
    rw [if_pos hlt, if_pos hlt, hroot, Option.map_some, Option.getD_some, heq]
    refine ⟨hle, lt_of_lt_of_le ?_ hsize, Nat.le_add_right _ _, hsize⟩
    exact Nat.lt_add_of_pos_right shardSize_pos
  · rw [if_neg hlt, if_neg hlt]
    exact ⟨ha, hs, hs.le, le_rfl⟩

/-- The scan starts at or before the shard does; only an implausibly wide scan for shard 0
is refused. -/
theorem exists_shardStartHeight (ht : Truthful S srv c tip) (hf : c.Fits tip)
    (hr : c.RootsUpTo pool tip roots) {endPos stop : Nat} (he : ScanEnds c pool tip s endPos stop) :
    ∃ start, 0 < start ∧ start ≤ stop ∧ c.size pool (start - 1) ≤ s * shardSize ∧
      (shardStartHeight S srv pool roots stop s = .ok start ∨
        (s = 0 ∧ maxFirstLeafScanBlocks < stop - start ∧
          shardStartHeight S srv pool roots stop s = .error (widthError pool start stop))) := by
  rcases Nat.eq_zero_or_pos s with rfl | hs
  · have hstop : 0 < c.size pool stop := by
      have := he.started
      omega
    obtain ⟨start, hfind, hleast⟩ := findPoolActivationHeight_eq ht hf hstop he.le_tip
    have hpos : 0 < start := by
      rcases Nat.eq_zero_or_pos start with rfl | hpos
      · exact absurd (hf.genesis pool) (Nat.pos_iff_ne_zero.mp hleast.1)
      · exact hpos
    have hzero : c.size pool (start - 1) = 0 := by
      by_contra hne
      have hle : start ≤ start - 1 := hleast.2 (Nat.pos_of_ne_zero hne)
      omega
    refine ⟨start, hpos, hleast.2 hstop, by omega, ?_⟩
    have hcheck : shardStartHeight S srv pool roots stop 0 =
        checkFirstLeafScanWidth pool start stop >>= fun _ ↦ pure start := by
      rw [shardStartHeight, if_pos rfl, hfind]
      rfl
    rw [hcheck, checkFirstLeafScanWidth]
    by_cases hwide : maxFirstLeafScanBlocks < stop - start
    · rw [if_pos hwide]
      exact Or.inr ⟨rfl, hwide, rfl⟩
    · rw [if_neg hwide]
      exact Or.inl rfl
  · obtain ⟨s, rfl⟩ := Nat.exists_eq_add_of_lt hs
    rw [Nat.zero_add] at he ⊢
    have hsize : (s + 1) * shardSize ≤ c.size pool stop := he.started.le
    have htip : (s + 1) * shardSize ≤ c.size pool tip :=
      hsize.trans (c.size_mono pool he.le_tip)
    have hlt : s < roots.length := hr.lt_length_iff.mpr htip
    have hroot : roots[s]? = some roots[s] := List.getElem?_eq_getElem hlt
    have hc := hr.completes s _ hroot
    refine ⟨roots[s].completingBlockHeight, hc.pos hf, hc.2 hsize,
      (hc.size_pred_lt (hc.pos hf)).le, Or.inl ?_⟩
    rw [shardStartHeight, if_neg (Nat.succ_ne_zero s), Nat.add_sub_cancel, hroot]
    exact congrArg Except.ok (hc.asU32_eq hf htip).1

/-! ## One shard -/

/-- The leaves of a shard, up to where it ends. -/
def shardSlice (leaves : List Bytes32) (s endPos : Nat) : ShardLeaves :=
  ⟨s, (leaves.take endPos).drop (s * shardSize)⟩

/-- A needed shard is fetched as its slice of the leaves, or the scan for shard 0 is
refused. -/
theorem fetchShard_eq (ht : Truthful S srv c tip) (hf : c.Fits tip)
    (hr : c.RootsUpTo pool tip roots) (hl : poolLeaves pool c.blocks = .ok leaves)
    (ha : anchor ≤ tip) (hs : s * shardSize < c.size pool anchor) :
    fetchShard S srv pool roots anchor (c.size pool anchor) s =
      .ok (shardSlice leaves s (shardEnd s (asU32 roots.length) (c.size pool anchor))) ∨
    (s = 0 ∧ ∃ start stop, stop ≤ tip ∧ maxFirstLeafScanBlocks < stop - start ∧
      fetchShard S srv pool roots anchor (c.size pool anchor) s =
        .error (widthError pool start stop)) := by
  have he := scanEnds_shardEndHeight hf hr ha hs
  obtain ⟨start, hpos, hle, hbase, hok | ⟨rfl, hwide, herr⟩⟩ := exists_shardStartHeight ht hf hr he
  · left
    have hsize : treeSizeAt S srv pool (start - 1) = .ok (c.size pool (start - 1)) :=
      treeSizeAt_eq ht hf (by have := he.le_tip; omega)
    have hraw := collectCmxs_eq ht.blocks hl hpos (Nat.le_succ_of_le hle)
    have hlen : c.size pool (shardEndHeight roots anchor s) ≤ leaves.length := by
      rw [Chain.length_of_poolLeaves hl]
      exact (Chain.located_sublist List.filter_sublist |>.flatMap _).length_le
    have hcap : c.size pool (shardEndHeight roots anchor s) ≤ 2 ^ 32 :=
      (c.size_mono pool he.le_tip).trans (hf.capacity pool)
    have hlo := he.start_le
    have hhi := he.end_le
    have hbounds : shardLeafBounds s (asU32 roots.length) (c.size pool anchor)
        (c.size pool (start - 1)) ((leaves.take (c.size pool (shardEndHeight roots anchor s))).drop
          (c.size pool (start - 1))).length = .ok (s * shardSize - c.size pool (start - 1),
            shardEnd s (asU32 roots.length) (c.size pool anchor) - c.size pool (start - 1)) := by
      obtain ⟨s, rfl⟩ := exists_toNat_eq (hf.shard_lt ha hs)
      obtain ⟨frontier, hfrontier⟩ := exists_toNat_eq (asU32_lt roots.length)
      rw [← hfrontier] at hhi ⊢
      refine shardLeafBounds_eq hs ?_ hbase ?_
      · exact lt_of_le_of_lt ((c.size_mono pool ha).trans (hf.capacity pool)) (by decide)
      · rw [List.length_drop, List.length_take, min_eq_left hlen]
        change shardEnd s.toNat frontier.toNat (c.size pool anchor) ≤ _
        omega
    refine bind_eq_ok.mpr ⟨start, hok, bind_eq_ok.mpr ⟨_, hsize, bind_eq_ok.mpr ⟨_, hraw,
      bind_eq_ok.mpr ⟨_, hbounds, ?_⟩⟩⟩⟩
    refine congrArg (fun cmxs ↦ Except.ok (ShardLeaves.mk s cmxs)) ?_
    rw [slice_slice _ (by omega), Nat.add_sub_of_le hbase,
      Nat.add_sub_of_le (hbase.trans he.start_le)]
  · right
    refine ⟨rfl, start, _, he.le_tip, hwide, ?_⟩
    rw [fetchShard, herr]
    rfl

/-! ## The needed shards -/

theorem mem_neededShards {notes : List NoteRef} : s ∈ neededShards notes ↔
    ∃ n ∈ notes, asU32 (n.position / shardSize) = s := by
  rw [neededShards, List.mem_insertionSort, List.mem_dedup, List.mem_map]

theorem checkNotePositions_eq_ok {notes : List NoteRef} {total height : Nat} :
    checkNotePositions pool notes total height = .ok () ↔ ∀ n ∈ notes, n.position < total := by
  unfold checkNotePositions
  cases h : notes.find? fun n ↦ total ≤ n.position with
  | none =>
      rw [List.find?_eq_none] at h
      refine ⟨fun _ n hn ↦ ?_, fun _ ↦ rfl⟩
      simpa using h n hn
  | some bad =>
      have hbad := List.find?_some h
      refine ⟨fun h ↦ by simp [throw, throwThe, MonadExceptOf.throw] at h, fun hall ↦ ?_⟩
      have := hall bad (List.mem_of_find?_eq_some h)
      simp only [decide_eq_true_eq] at hbad
      omega

/-- A shard that holds a note below the anchor's tree size starts below it. -/
theorem neededShards_lt {notes : List NoteRef} {total : Nat}
    (hpos : ∀ n ∈ notes, n.position < total) (hs : s ∈ neededShards notes) :
    s * shardSize < total := by
  obtain ⟨n, hn, rfl⟩ := mem_neededShards.mp hs
  calc asU32 (n.position / shardSize) * shardSize
      ≤ n.position / shardSize * shardSize := Nat.mul_le_mul_right _ (Nat.mod_le _ _)
    _ ≤ n.position := Nat.div_mul_le_self _ _
    _ < total := hpos n hn

/-- The leaves sit at the absolute positions of the shard, and every leaf of the shard among
the first `total` is there. -/
structure ShardLeaves.Aligned (leaves : List Bytes32) (total : Nat) (shard : ShardLeaves) :
    Prop where
  element : ∀ i cmx, shard.cmxs[i]? = some cmx →
    leaves[shard.shardIndex * shardSize + i]? = some cmx
  covers : min ((shard.shardIndex + 1) * shardSize) total ≤
    shard.shardIndex * shardSize + shard.cmxs.length

theorem length_shardSlice {endPos : Nat} (hs : s * shardSize ≤ endPos)
    (hle : endPos ≤ leaves.length) :
    s * shardSize + (shardSlice leaves s endPos).cmxs.length = endPos := by
  rw [shardSlice, List.length_drop, List.length_take, min_eq_left hle]
  omega

theorem getElem?_shardSlice {endPos i : Nat} {cmx : Bytes32}
    (h : (shardSlice leaves s endPos).cmxs[i]? = some cmx) :
    leaves[s * shardSize + i]? = some cmx := by
  rw [shardSlice, List.getElem?_drop, List.getElem?_take] at h
  split at h
  · exact h
  · exact absurd h (by simp)

/-- The end of a needed shard, among the leaves. -/
theorem shardEnd_le_length (hf : c.Fits tip) (hr : c.RootsUpTo pool tip roots)
    (hl : poolLeaves pool c.blocks = .ok leaves) (ha : anchor ≤ tip)
    (hs : s * shardSize < c.size pool anchor) :
    s * shardSize ≤ shardEnd s (asU32 roots.length) (c.size pool anchor) ∧
      shardEnd s (asU32 roots.length) (c.size pool anchor) ≤ leaves.length := by
  have he := scanEnds_shardEndHeight hf hr ha hs
  refine ⟨he.start_le, he.end_le.trans ?_⟩
  rw [Chain.length_of_poolLeaves hl]
  exact (Chain.located_sublist List.filter_sublist |>.flatMap _).length_le

theorem aligned_shardSlice (hf : c.Fits tip) (hr : c.RootsUpTo pool tip roots)
    (hl : poolLeaves pool c.blocks = .ok leaves) (ha : anchor ≤ tip)
    (hs : s * shardSize < c.size pool anchor) :
    (shardSlice leaves s (shardEnd s (asU32 roots.length) (c.size pool anchor))).Aligned leaves
      (c.size pool anchor) := by
  obtain ⟨hstart, hlen⟩ := shardEnd_le_length hf hr hl ha hs
  refine ⟨fun i cmx h ↦ getElem?_shardSlice h, ?_⟩
  show min ((s + 1) * shardSize) (c.size pool anchor) ≤ s * shardSize + _
  rw [length_shardSlice hstart hlen, succ_mul_shardSize, shardEnd]
  split
  · exact min_le_left _ _
  · exact min_le_right _ _

/-- The needed shards are fetched as their slices, or the scan for shard 0 is refused. -/
theorem fetchShardLeaves_eq (ht : Truthful S srv c tip) (hf : c.Fits tip)
    (hr : c.RootsUpTo pool tip roots) (hl : poolLeaves pool c.blocks = .ok leaves)
    (ha : anchor ≤ tip) {shards : List Nat}
    (hlt : ∀ s ∈ shards, s * shardSize < c.size pool anchor) :
    fetchShardLeaves S srv pool roots anchor (c.size pool anchor) shards =
      .ok (shards.map fun s ↦
        shardSlice leaves s (shardEnd s (asU32 roots.length) (c.size pool anchor))) ∨
    (0 ∈ shards ∧ ∃ start stop, stop ≤ tip ∧ maxFirstLeafScanBlocks < stop - start ∧
      fetchShardLeaves S srv pool roots anchor (c.size pool anchor) shards =
        .error (widthError pool start stop)) := by
  have hfetch := fun s hs ↦ fetchShard_eq (s := s) ht hf hr hl ha (hlt s hs)
  by_cases hwide : 0 ∈ shards ∧ ∃ start stop, stop ≤ tip ∧
      maxFirstLeafScanBlocks < stop - start ∧
      fetchShard S srv pool roots anchor (c.size pool anchor) 0 =
        .error (widthError pool start stop)
  · obtain ⟨h0, start, stop, hle, hw, herr⟩ := hwide
    refine Or.inr ⟨h0, start, stop, hle, hw, mapM_eq_error h0 herr fun s hs ↦ ?_⟩
    rcases hfetch s hs with hok | ⟨rfl, -⟩
    · exact Or.inl ⟨_, hok⟩
    · exact Or.inr herr
  · refine Or.inl (mapM_eq_ok_map fun s hs ↦ ?_)
    rcases hfetch s hs with hok | ⟨rfl, hw⟩
    · exact hok
    · exact absurd ⟨hs, hw⟩ hwide

/-- Shard leaves are aligned: no bounds check fails, apart from the width limit on the scan
for shard 0. -/
theorem shard_leaves_aligned (ht : Truthful S srv c tip) (hf : c.Fits tip)
    (hl : poolLeaves pool c.blocks = .ok leaves)
    (hroots : getSubtreeRootsForProtocol srv pool 0 = .ok roots) (ha : anchor ≤ tip)
    {notes : List NoteRef}
    (hpos : checkNotePositions pool notes (c.size pool anchor) anchor = .ok ()) :
    (∃ shards, fetchShardLeaves S srv pool roots anchor (c.size pool anchor)
        (neededShards notes) = .ok shards ∧
      shards.map ShardLeaves.shardIndex = neededShards notes ∧
      ∀ shard ∈ shards, shard.Aligned leaves (c.size pool anchor)) ∨
    (0 ∈ neededShards notes ∧ ∃ start stop, stop ≤ tip ∧ maxFirstLeafScanBlocks < stop - start ∧
      fetchShardLeaves S srv pool roots anchor (c.size pool anchor) (neededShards notes) =
        .error (widthError pool start stop)) := by
  obtain ⟨roots', hroots', hr⟩ := ht.roots pool
  obtain rfl : roots = roots' := Except.ok.inj (hroots.symm.trans (getSubtreeRoots_eq hroots'))
  have hlt : ∀ s ∈ neededShards notes, s * shardSize < c.size pool anchor := fun s hs ↦
    neededShards_lt (checkNotePositions_eq_ok.mp hpos) hs
  refine (fetchShardLeaves_eq ht hf hr hl ha hlt).imp_left fun hok ↦ ⟨_, hok, ?_, ?_⟩
  · rw [List.map_map]
    exact List.map_id _
  · intro shard hshard
    obtain ⟨s, hs, rfl⟩ := List.mem_map.mp hshard
    exact aligned_shardSlice hf hr hl ha (hlt s hs)

/-! ## What is handed over -/

/-- The inputs contain only data up to the anchor: its frontier, leaves below its tree size,
each inside its shard, and roots of shards that end there. -/
structure WitnessInputs.UpTo (S : ShardTrees) (leaves : List Bytes32) (total : Nat)
    (inputs : WitnessInputs) : Prop where
  frontier : frontierLeafCount S inputs.frontierBytes = .ok total
  element : ∀ shard ∈ inputs.shardLeaves, ∀ i cmx, shard.cmxs[i]? = some cmx →
    leaves[shard.shardIndex * shardSize + i]? = some cmx
  inside : ∀ shard ∈ inputs.shardLeaves, shard.shardIndex * shardSize + shard.cmxs.length ≤
    min ((shard.shardIndex + 1) * shardSize) total
  roots : ∀ root ∈ inputs.capRoots, (root.1 + 1) * shardSize ≤ total

/-- What a run against a truthful server has fetched, once it hands its inputs over. -/
theorem fetched_of_witnessInputs (ht : Truthful S srv c tip) {req : WitnessRequest}
    {inputs : WitnessInputs} (h : witnessInputs S srv pool req = .ok inputs) :
    inputs.anchorHeight ≤ tip ∧
      frontierLeafCount S inputs.frontierBytes = .ok (c.size pool inputs.anchorHeight) ∧
      (∀ n ∈ req.notes, n.position < c.size pool inputs.anchorHeight) ∧
      ∃ roots, c.RootsUpTo pool tip roots ∧
        fetchShardLeaves S srv pool roots inputs.anchorHeight (c.size pool inputs.anchorHeight)
          (neededShards req.notes) = .ok inputs.shardLeaves ∧
        capRoots roots = .ok inputs.capRoots := by
  obtain ⟨⟨treeState, total, roots, hstate, hbytes, htotal, hpos, hroots, hshards, hcap, -⟩⟩ :=
    witnessInputs_eq_ok h
  obtain ⟨hle, hpools⟩ := ht.states _ treeState (orFail_eq_ok.mp hstate)
  obtain ⟨bytes, hbytes', hcount⟩ := hpools pool
  obtain rfl : inputs.frontierBytes = bytes := Except.ok.inj (hbytes.symm.trans hbytes')
  obtain rfl : total = c.size pool inputs.anchorHeight :=
    Except.ok.inj (htotal.symm.trans hcount)
  obtain ⟨roots', hroots', hr⟩ := ht.roots pool
  obtain rfl : roots = roots' := Except.ok.inj (hroots.symm.trans (getSubtreeRoots_eq hroots'))
  exact ⟨hle, hcount, checkNotePositions_eq_ok.mp hpos, roots, hr, hshards, hcap⟩

/-- The indices of the handed roots are those of all shards complete at the tip. -/
theorem mem_capRoots (hf : c.Fits tip) (hr : c.RootsUpTo pool tip roots)
    {cap : List (Nat × Bytes32)} (h : capRoots roots = .ok cap) :
    (∃ root ∈ cap, root.1 = s) ↔ (s + 1) * shardSize ≤ c.size pool tip := by
  have hmap : cap.map Prod.fst = List.range roots.length := by
    have hsnd : cap.map Prod.fst = roots.zipIdx.map Prod.snd := by
      refine map_eq_map_of_mapM h fun x hx r hxr ↦ ?_
      obtain ⟨bytes, -, hout⟩ := bind_eq_ok.mp hxr
      rw [← pure_eq_ok.mp hout]
      exact asU32_of_lt (lt_trans (List.snd_lt_of_mem_zipIdx hx) (hr.length_lt hf))
    rw [hsnd]
    simp [List.range_eq_range']
  rw [← hr.lt_length_iff, ← List.mem_range, ← hmap, List.mem_map]

/-- A shard that completes above the anchor, and not above the tip, is handed over. -/
theorem not_upTo (ht : Truthful S srv c tip) (hf : c.Fits tip) {req : WitnessRequest}
    {inputs : WitnessInputs} (h : witnessInputs S srv pool req = .ok inputs)
    (hlt : c.size pool inputs.anchorHeight < (s + 1) * shardSize)
    (hle : (s + 1) * shardSize ≤ c.size pool tip) :
    ¬ inputs.UpTo S leaves (c.size pool inputs.anchorHeight) := by
  obtain ⟨-, -, -, roots, hr, -, hcap⟩ := fetched_of_witnessInputs ht h
  obtain ⟨root, hroot, rfl⟩ := (mem_capRoots hf hr hcap).mpr hle
  exact fun hup ↦ absurd (hup.roots root hroot) (Nat.not_le_of_lt hlt)

/-- The anchor bounds everything that is handed over exactly when no shard of the pool
completes above the anchor. -/
theorem inputs_upTo_iff (ht : Truthful S srv c tip) (hf : c.Fits tip)
    (hl : poolLeaves pool c.blocks = .ok leaves) {req : WitnessRequest} {inputs : WitnessInputs}
    (h : witnessInputs S srv pool req = .ok inputs) :
    inputs.UpTo S leaves (c.size pool inputs.anchorHeight) ↔
      ∀ s, ¬ (c.size pool inputs.anchorHeight < (s + 1) * shardSize ∧
        (s + 1) * shardSize ≤ c.size pool tip) := by
  obtain ⟨ha, hcount, hpos, roots, hr, hshards, hcap⟩ := fetched_of_witnessInputs ht h
  constructor
  · rintro hup s ⟨hlt, hle⟩
    exact not_upTo ht hf h hlt hle hup
  · intro hnone
    have hlt : ∀ s ∈ neededShards req.notes, s * shardSize < c.size pool inputs.anchorHeight :=
      fun s hs ↦ neededShards_lt hpos hs
    have hslice : ∀ shard ∈ inputs.shardLeaves, ∃ s ∈ neededShards req.notes,
        shard = shardSlice leaves s
          (shardEnd s (asU32 roots.length) (c.size pool inputs.anchorHeight)) := by
      intro shard hshard
      rcases fetchShardLeaves_eq ht hf hr hl ha hlt with hok | ⟨-, _, _, -, -, herr⟩
      · rw [← Except.ok.inj (hok.symm.trans hshards)] at hshard
        obtain ⟨s, hs, rfl⟩ := List.mem_map.mp hshard
        exact ⟨s, hs, rfl⟩
      · exact absurd (hshards.symm.trans herr) (by simp)
    refine ⟨hcount, ?_, ?_, ?_⟩
    · intro shard hshard i cmx hget
      obtain ⟨s, -, rfl⟩ := hslice shard hshard
      exact getElem?_shardSlice hget
    · intro shard hshard
      obtain ⟨s, hs, rfl⟩ := hslice shard hshard
      obtain ⟨hstart, hlen⟩ := shardEnd_le_length hf hr hl ha (hlt s hs)
      show s * shardSize + _ ≤ min ((s + 1) * shardSize) _
      rw [length_shardSlice hstart hlen, shardEnd, asU32_of_lt (hr.length_lt hf),
        ← succ_mul_shardSize]
      split
      · rename_i hlt
        have hle := hr.lt_length_iff.mp hlt
        exact le_min le_rfl (Nat.le_of_not_lt fun hlt ↦ hnone s ⟨hlt, hle⟩)
      · rename_i hge
        have hlt := Nat.lt_of_not_le (mt hr.lt_length_iff.mpr hge)
        exact le_min ((c.size_mono pool ha).trans hlt.le) le_rfl
    · intro root hroot
      have hle := (mem_capRoots hf hr hcap).mp ⟨root, hroot, rfl⟩
      exact Nat.le_of_not_lt fun hlt ↦ hnone root.1 ⟨hlt, hle⟩

/-- On a chain no longer than the width limit, every request that the guards accept reaches
the builder. -/
theorem exists_witnessInputs (ht : Truthful S srv c tip) (hf : c.Fits tip)
    (hl : poolLeaves pool c.blocks = .ok leaves) (hconn : srv.connect = .ok ())
    (hpos : 0 < anchor) (ha : anchor ≤ tip) (htip : tip ≤ maxFirstLeafScanBlocks)
    {notes : List NoteRef} (hne : notes ≠ [])
    (hnotes : ∀ n ∈ notes, n.position < c.size pool anchor) :
    ∃ inputs, witnessInputs S srv pool ⟨some anchor, none, notes⟩ = .ok inputs ∧
      inputs.anchorHeight = anchor := by
  obtain ⟨ts, hts⟩ := ht.answers anchor hpos ha
  obtain ⟨bytes, hbytes, hcount⟩ := (ht.states anchor ts hts).2 pool
  obtain ⟨roots, hroots, hr⟩ := ht.roots pool
  have hnonempty : checkPoolNonempty pool (c.size pool anchor) anchor = .ok () := by
    obtain ⟨n, hn⟩ := List.exists_mem_of_ne_nil notes hne
    have hlt := hnotes n hn
    rw [checkPoolNonempty, if_neg (by omega)]
    rfl
  have hlt : ∀ s ∈ neededShards notes, s * shardSize < c.size pool anchor :=
    fun s hs ↦ neededShards_lt hnotes hs
  obtain ⟨shards, hshards⟩ : ∃ shards, fetchShardLeaves S srv pool roots anchor
      (c.size pool anchor) (neededShards notes) = .ok shards := by
    rcases fetchShardLeaves_eq ht hf hr hl ha hlt with hok | ⟨-, _, _, hle, hw, -⟩
    · exact ⟨_, hok⟩
    · omega
  obtain ⟨cap, hcap⟩ : ∃ cap, capRoots roots = .ok cap := by
    refine ⟨_, mapM_eq_ok_map (g := fun x ↦ (asU32 x.2, (Arr.tryFrom 32 x.1.rootHash).getD
      (fill 32 0))) fun x hx ↦ ?_⟩
    have hlen := hr.rootHash x.1 (List.fst_mem_of_mem_zipIdx hx)
    simp [Arr.tryFrom, hlen, orElse]
  refine ⟨⟨cap, bytes, anchor, shards, notes.map fun n ↦ (n.position, n.cmx)⟩, ?_, rfl⟩
  rw [witnessInputs, if_neg hne]
  refine bind_eq_ok.mpr ⟨(), orFail_eq_ok.mpr hconn, bind_eq_ok.mpr ⟨anchor, rfl, ?_⟩⟩
  refine bind_eq_ok.mpr ⟨ts, orFail_eq_ok.mpr hts, bind_eq_ok.mpr ⟨bytes, orFail_eq_ok.mpr hbytes,
    bind_eq_ok.mpr ⟨_, orFail_eq_ok.mpr hcount, bind_eq_ok.mpr ⟨(), hnonempty, ?_⟩⟩⟩⟩
  exact bind_eq_ok.mpr ⟨(), checkNotePositions_eq_ok.mpr hnotes, bind_eq_ok.mpr ⟨roots,
    getSubtreeRoots_eq hroots, bind_eq_ok.mpr ⟨shards, hshards, bind_eq_ok.mpr ⟨cap, hcap, rfl⟩⟩⟩⟩

end Shards

/-! ## A shard that completes above the anchor -/

section Sample

def pairAction : Proto.CompactOrchardAction :=
  ⟨List.replicate 32 1, List.replicate 32 3, List.replicate 32 0, List.replicate 52 0⟩

/-- A block of one transaction with `k` Orchard actions. -/
def pairBlock (height : Nat) (id : UInt8) (k : Nat) : Proto.CompactBlock :=
  ⟨height, [], 0, [⟨[id], [], List.replicate k pairAction, []⟩], none⟩

/-- Two blocks, of `k` and of `m` Orchard actions. -/
def pairChain (k m : Nat) : Chain where
  blocks := [pairBlock 1 1 k, pairBlock 2 2 m]
  ascending := by simp [pairBlock]
  bounded := by simp [pairBlock, u32Size]
  unique := by simp [UniqueTxids, located, pairBlock]

theorem size_pairChain_ironwood (k m h : Nat) : (pairChain k m).size .ironwood h = 0 := by
  have hsub : (poolActions .ironwood ((pairChain k m).slice 0 h)).Sublist
      (poolActions .ironwood (pairChain k m).blocks) :=
    (Chain.located_sublist List.filter_sublist).flatMap _
  have hnil : poolActions .ironwood (pairChain k m).blocks = [] := by
    simp [poolActions, located, pairChain, pairBlock, Pool.actions]
  rw [hnil, List.sublist_nil] at hsub
  rw [Chain.size, hsub, List.length_nil]

theorem size_pairChain (k m h : Nat) : (pairChain k m).size .orchard h =
    (if 1 ≤ h then k else 0) + if 2 ≤ h then m else 0 := by
  rcases h with - | - | h
  · simp [Chain.size, Chain.slice, pairChain, pairBlock, poolActions, located]
  · simp [Chain.size, Chain.slice, pairChain, pairBlock, poolActions, located, Pool.actions]
  · simp [Chain.size, Chain.slice, pairChain, pairBlock, poolActions, located, Pool.actions]

/-- The leaves of the chain. -/
def pairLeaves (k m : Nat) : List Bytes32 :=
  [List.replicate k (fill 32 3), List.replicate m (fill 32 3)].flatten

theorem pushBlockCmxs_pairBlock (height : Nat) (id : UInt8) (k : Nat) :
    pushBlockCmxs .orchard (pairBlock height id k) = .ok (List.replicate k (fill 32 3)) := by
  rw [pushBlockCmxs_eq_ok]
  simp [pairBlock, Pool.actions, pairAction, fill]

theorem poolLeaves_pairChain (k m : Nat) :
    poolLeaves .orchard (pairChain k m).blocks = .ok (pairLeaves k m) :=
  Chain.poolLeaves_of_forall₂ (.cons (pushBlockCmxs_pairBlock _ _ _)
    (.cons (pushBlockCmxs_pairBlock _ _ _) .nil))

/-- A tree of which only the frontiers of the two blocks can be read. -/
def pairTrees : ShardTrees where
  Hash := Bytes32
  Frontier := Option Nat
  Path := Unit
  Tree := Unit
  fromBytes := some
  toBytes := id
  readCommitmentTree bytes :=
    if bytes = [1] then .ok (some 65534) else if bytes = [2] then .ok (some 65535)
    else .error "not a commitment tree"
  emptyFrontier := none
  frontierPosition := id
  frontierRoot _ := fill 32 0
  empty := ()
  insert _ _ _ := .ok ()
  insertFrontier _ _ _ := .ok ()
  batchInsert _ _ _ := .ok ()
  rootAtCheckpoint _ := .ok (some (fill 32 0))
  witnessAtCheckpoint _ _ := .ok (some ())
  pathRoot _ _ := fill 32 0

/-- A shard short of one leaf in block 1, which block 2 adds. -/
def shardChain : Chain := pairChain 65535 1

def shardServer : Server where
  connect := .ok ()
  getLatestBlock := .ok 2
  getBlockRange s e := .ok ((shardChain.slice s e).map .ok)
  getTransaction _ _ := .error "not served"
  getTreeState
    | 1 => .ok ⟨"01", ""⟩
    | 2 => .ok ⟨"02", ""⟩
    | _ => .error "no such block"
  getSubtreeRoots
    | .orchard, _ => .ok [.ok ⟨List.replicate 32 9, 2⟩]
    | .ironwood, _ => .ok []

theorem shardChain_fits : shardChain.Fits 2 where
  tip_lt := by decide
  genesis pool := by
    cases pool
    · simp [shardChain, size_pairChain]
    · exact size_pairChain_ironwood _ _ _
  capacity pool := by
    cases pool
    · simp [shardChain, size_pairChain]
    · simp [shardChain, size_pairChain_ironwood]

theorem shardChain_completes : shardChain.Completes .orchard 0 2 := by
  refine ⟨by simp [shardChain, size_pairChain, shardSize], fun h hh ↦ ?_⟩
  by_contra hlt
  simp only [shardChain, size_pairChain, Set.mem_ofPred_eq] at hh
  rw [if_neg hlt] at hh
  split at hh <;> simp [shardSize] at hh

theorem frontierLeafCount_pairTrees : frontierLeafCount pairTrees [1] = .ok 65535 ∧
    frontierLeafCount pairTrees [2] = .ok 65536 ∧ frontierLeafCount pairTrees [] = .ok 0 :=
  ⟨rfl, rfl, rfl⟩

theorem size_shardChain : shardChain.size .orchard 1 = 65535 ∧
    shardChain.size .orchard 2 = 65536 ∧ ∀ h, shardChain.size .ironwood h = 0 := by
  refine ⟨?_, ?_, size_pairChain_ironwood _ _⟩
  · simp [shardChain, size_pairChain]
  · simp [shardChain, size_pairChain]

/-- The server reports the sizes of the chain at its two blocks. -/
theorem shardServer_states {h : Nat} {ts : Proto.TreeState}
    (hts : shardServer.getTreeState h = .ok ts) : h ≤ 2 ∧ ∀ pool : Pool, ∃ bytes,
      Hex.decode (pool.treeStateHex ts) = .ok bytes ∧
        frontierLeafCount pairTrees bytes = .ok (shardChain.size pool h) := by
  obtain ⟨hone, htwo, hironwood⟩ := size_shardChain
  obtain ⟨hbytes, hbytes', hempty⟩ := frontierLeafCount_pairTrees
  rcases h with - | - | - | h
  · cases hts
  · obtain rfl : ts = ⟨"01", ""⟩ := (Except.ok.inj hts).symm
    refine ⟨by decide, fun pool ↦ ?_⟩
    cases pool with
    | orchard => exact ⟨[1], by decide +kernel, hbytes.trans (congrArg _ hone.symm)⟩
    | ironwood => exact ⟨[], by decide +kernel, hempty.trans (congrArg _ (hironwood _).symm)⟩
  · obtain rfl : ts = ⟨"02", ""⟩ := (Except.ok.inj hts).symm
    refine ⟨by decide, fun pool ↦ ?_⟩
    cases pool with
    | orchard => exact ⟨[2], by decide +kernel, hbytes'.trans (congrArg _ htwo.symm)⟩
    | ironwood => exact ⟨[], by decide +kernel, hempty.trans (congrArg _ (hironwood _).symm)⟩
  · cases hts

theorem shardServer_truthful : Truthful pairTrees shardServer shardChain 2 where
  blocks _ _ := rfl
  answers h hpos hle := by
    obtain rfl | rfl : h = 1 ∨ h = 2 := by omega
    · exact ⟨_, rfl⟩
    · exact ⟨_, rfl⟩
  states _ _ := shardServer_states
  roots pool := by
    cases pool with
    | orchard =>
        refine ⟨[⟨List.replicate 32 9, 2⟩], rfl, ?_, ?_, by simp⟩
        · rw [size_shardChain.2.1]
          decide
        · rintro s root hroot
          obtain ⟨rfl, rfl⟩ : s = 0 ∧ root = ⟨List.replicate 32 9, 2⟩ := by
            simpa [List.getElem?_singleton, eq_comm] using hroot
          exact shardChain_completes
    | ironwood =>
        refine ⟨[], rfl, ?_, by simp, by simp⟩
        rw [size_shardChain.2.2]
        decide

/-- A request for the first note, at either block. -/
def shardRequest (anchor : Nat) : WitnessRequest := ⟨some anchor, none, [⟨0, fill 32 3⟩]⟩

theorem exists_shardInputs {anchor : Nat} (hpos : 0 < anchor) (hle : anchor ≤ 2) :
    ∃ inputs, witnessInputs pairTrees shardServer .orchard (shardRequest anchor) = .ok inputs ∧
      inputs.anchorHeight = anchor := by
  refine exists_witnessInputs shardServer_truthful shardChain_fits (poolLeaves_pairChain 65535 1)
    rfl hpos hle (by decide) (by simp) fun n hn ↦ ?_
  obtain rfl := List.mem_singleton.mp hn
  have hone : 1 ≤ anchor := hpos
  simp [shardChain, size_pairChain, hone]

/-- With the anchor at block 1 the root of shard 0, complete at block 2 only, is handed over. -/
theorem handed_past_anchor : Truthful pairTrees shardServer shardChain 2 ∧
    ∃ inputs, witnessInputs pairTrees shardServer .orchard (shardRequest 1) = .ok inputs ∧
      inputs.anchorHeight = 1 ∧
      ¬ inputs.UpTo pairTrees (pairLeaves 65535 1) (shardChain.size .orchard 1) := by
  obtain ⟨inputs, h, hanchor⟩ := exists_shardInputs Nat.one_pos (by decide)
  refine ⟨shardServer_truthful, inputs, h, hanchor, ?_⟩
  rw [← hanchor]
  refine not_upTo (s := 0) shardServer_truthful shardChain_fits h ?_ ?_
  · simp [hanchor, shardChain, size_pairChain, shardSize]
  · simp [shardChain, size_pairChain, shardSize]

/-- With the anchor at block 2 nothing above it is. -/
theorem inputs_upTo_iff_shard :
    ∃ inputs, witnessInputs pairTrees shardServer .orchard (shardRequest 2) = .ok inputs ∧
      inputs.UpTo pairTrees (pairLeaves 65535 1)
        (shardChain.size .orchard inputs.anchorHeight) := by
  obtain ⟨inputs, h, hanchor⟩ := exists_shardInputs Nat.two_pos le_rfl
  refine ⟨inputs, h, (inputs_upTo_iff shardServer_truthful shardChain_fits
    (poolLeaves_pairChain 65535 1) h).mpr fun s hs ↦ ?_⟩
  rw [hanchor] at hs
  omega

/-- With the anchor at block 1 the leaves of shard 0 are aligned. -/
theorem shard_leaves_aligned_shard :
    ∃ shards, fetchShardLeaves pairTrees shardServer .orchard [⟨List.replicate 32 9, 2⟩] 1
        (shardChain.size .orchard 1) (neededShards [⟨0, fill 32 3⟩]) = .ok shards ∧
      ∀ shard ∈ shards, shard.Aligned (pairLeaves 65535 1) (shardChain.size .orchard 1) := by
  have hroots : getSubtreeRootsForProtocol shardServer .orchard 0 =
      .ok [⟨List.replicate 32 9, 2⟩] := rfl
  have hpos : checkNotePositions .orchard [⟨0, fill 32 3⟩] (shardChain.size .orchard 1) 1 =
      .ok () := checkNotePositions_eq_ok.mpr (by simp [shardChain, size_pairChain])
  rcases shard_leaves_aligned shardServer_truthful shardChain_fits (poolLeaves_pairChain 65535 1)
    hroots (by decide) hpos with ⟨shards, h, -, hall⟩ | ⟨-, start, stop, hle, hwide, -⟩
  · exact ⟨shards, h, hall⟩
  · simp only [maxFirstLeafScanBlocks] at hwide
    omega

end Sample

end LedgerZcash
