import LedgerZcash.Crypto.ShardRoot
import LedgerZcash.Lib.SparseTree

/-!
# Authenticated witnesses

What `buildWitnesses` answers depends on the upstream tree.  `ShardTrees.Lawful` states what
that tree is documented to do, operation by operation, in terms of a sparse tree: values that
agree with one commitment tree are inserted, a root or a path that is determined as of the
checkpoint is returned, and a path is the list of siblings of its position.

For inputs that describe a commitment tree (`WitnessInputs.Describes`) the anchor is then the root
of the tree cut at the anchor's size, whatever else the inputs hold, and every note gets
the path of its position (`buildWitnesses_of_describes`).
-/

namespace LedgerZcash

open Hex Collect Merkle

/-- `ORCHARD_DEPTH`. -/
def orchardDepth : Nat := 32

/-- What the upstream tree does, for the hash of two nodes at a level and the empty leaf. -/
structure ShardTrees.Lawful (S : ShardTrees) (combine : Nat → S.Hash → S.Hash → S.Hash)
    (emptyLeaf : S.Hash) where
  fromBytes_toBytes : ∀ hash, S.fromBytes (S.toBytes hash) = some hash
  toBytes_fromBytes : ∀ bytes hash, S.fromBytes bytes = some hash → S.toBytes hash = bytes
  /-- The parts of a frontier. -/
  view : S.Frontier → Option (Merkle.Frontier S.Hash)
  view_empty : view S.emptyFrontier = none
  position_lt : ∀ f g, view f = some g → g.position < 2 ^ orchardDepth
  frontierPosition_eq : ∀ f, S.frontierPosition f = (view f).map Merkle.Frontier.position
  frontierRoot_eq : ∀ f,
    S.frontierRoot f = Merkle.Frontier.rootOf combine emptyLeaf (view f) orchardDepth
  /-- The tree holds what the sparse tree knows. -/
  Holds : S.Tree → Sparse S.Hash → Prop
  holds_empty : Holds S.empty .empty
  insert : ∀ {t k i hash leaf}, Holds t k → i < 2 ^ (orchardDepth - orchardShardHeight) →
    (k.insert orchardShardHeight i hash).Sound combine leaf →
    ∃ t', S.insert t i hash = .ok t' ∧ Holds t' (k.insert orchardShardHeight i hash)
  insertFrontier : ∀ {t k f id leaf}, Holds t k → k.checkpoint = none →
    (k.insertFrontier (view f)).Sound combine leaf →
    ∃ t', S.insertFrontier t f id = .ok t' ∧ Holds t' (k.insertFrontier (view f))
  batchInsert : ∀ {t k start leaves leaf}, Holds t k → start + leaves.length ≤ 2 ^ orchardDepth →
    (k.insertLeaves start (leaves.map fun x ↦ (x.1, x.2 = .marked))).Sound combine leaf →
    ∃ t', S.batchInsert t start leaves = .ok t' ∧
      Holds t' (k.insertLeaves start (leaves.map fun x ↦ (x.1, x.2 = .marked)))
  rootAtCheckpoint : ∀ {t k root}, Holds t k → k.root combine emptyLeaf orchardDepth = some root →
    S.rootAtCheckpoint t = .ok (some root)
  witnessAtCheckpoint : ∀ {t k p siblings}, Holds t k →
    k.path combine emptyLeaf orchardDepth p = some siblings →
    ∃ path, S.witnessAtCheckpoint t p = .ok (some path) ∧
      ∀ hash, S.pathRoot path hash = climb combine 0 p hash siblings
  pathRoot_eq : ∀ {t p path}, S.witnessAtCheckpoint t p = .ok (some path) →
    ∃ siblings : List S.Hash, siblings.length = orchardDepth ∧
      ∀ hash, S.pathRoot path hash = climb combine 0 p hash siblings

section Laws

variable {S : ShardTrees} {combine : Nat → S.Hash → S.Hash → S.Hash} {emptyLeaf : S.Hash}
  {t : S.Tree} {k : Sparse S.Hash} {leaf : Nat → S.Hash} {n : Nat}

/-- The root of the tree over the first `n` leaves. -/
def anchorRoot (combine : Nat → S.Hash → S.Hash → S.Hash) (emptyLeaf : S.Hash)
    (hashes : List S.Hash) (n : Nat) : S.Hash :=
  node combine (padded emptyLeaf (hashes.take n)) orchardDepth 0

/-- The siblings of a position in the tree over the first `n` leaves. -/
def anchorPath (combine : Nat → S.Hash → S.Hash → S.Hash) (emptyLeaf : S.Hash)
    (hashes : List S.Hash) (n p : Nat) : List S.Hash :=
  siblings combine (padded emptyLeaf (hashes.take n)) orchardDepth 0 p

/-- A path is the path of a position in the tree over the first `n` leaves. -/
def IsAnchorPath (combine : Nat → S.Hash → S.Hash → S.Hash) (emptyLeaf : S.Hash)
    (hashes : List S.Hash) (n p : Nat) (path : S.Path) : Prop :=
  ∀ hash, S.pathRoot path hash = climb combine 0 p hash (anchorPath combine emptyLeaf hashes n p)

/-! ## Insertions -/

/-- A sparse tree has grown: nothing known or marked is gone, and the checkpoint is as it was. -/
structure Grown (k k' : Sparse S.Hash) : Prop where
  known : ∀ l i, (k.known l i).isSome → (k'.known l i).isSome
  marked : ∀ p ∈ k.marked, p ∈ k'.marked
  checkpoint : k'.checkpoint = k.checkpoint

theorem Grown.refl (k : Sparse S.Hash) : Grown k k := ⟨fun _ _ h ↦ h, fun _ h ↦ h, rfl⟩

theorem Grown.trans {k₁ k₂ k₃ : Sparse S.Hash} (h : Grown k₁ k₂) (h' : Grown k₂ k₃) :
    Grown k₁ k₃ :=
  ⟨fun l i hk ↦ h'.known l i (h.known l i hk), fun p hp ↦ h'.marked p (h.marked p hp),
    h'.checkpoint.trans h.checkpoint⟩

/-- Shard roots of a tree are inserted, and known from then on. -/
theorem insertCapRoots_ok (law : S.Lawful combine emptyLeaf) (hk : law.Holds t k)
    (hs : k.Sound combine leaf) {roots : List (Nat × Bytes32)}
    (hroots : ∀ root ∈ roots, root.1 < 2 ^ (orchardDepth - orchardShardHeight) ∧
      S.fromBytes root.2 = some (node combine leaf orchardShardHeight root.1)) :
    ∃ t' k', insertCapRoots S t roots = .ok t' ∧ law.Holds t' k' ∧ k'.Sound combine leaf ∧
      Grown k k' ∧ ∀ root ∈ roots, (k'.known orchardShardHeight root.1).isSome := by
  induction roots generalizing t k with
  | nil => exact ⟨t, k, rfl, hk, hs, .refl k, by simp⟩
  | cons root roots ih =>
      obtain ⟨hlt, hbytes⟩ := hroots root List.mem_cons_self
      have hsound : (k.insert orchardShardHeight root.1 _).Sound combine leaf :=
        Sparse.sound_insert hs
      obtain ⟨t₁, hinsert, hk₁⟩ := law.insert hk hlt hsound
      have hgrown : Grown k (k.insert orchardShardHeight root.1
          (node combine leaf orchardShardHeight root.1)) :=
        ⟨fun _ _ h ↦ Sparse.isSome_insert.mpr (.inr h), fun _ h ↦ h, rfl⟩
      obtain ⟨t', k', hrest, hk', hs', hgrown', hknown⟩ := ih hk₁ hsound fun r hr ↦
        hroots r (List.mem_cons_of_mem _ hr)
      refine ⟨t', k', ?_, hk', hs', hgrown.trans hgrown', fun r hr ↦ ?_⟩
      · rw [insertCapRoots, List.foldlM_cons]
        refine bind_eq_ok.mpr ⟨t₁, ?_, hrest⟩
        exact bind_eq_ok.mpr ⟨_, okOr_eq_ok.mpr hbytes, mapError_eq_ok.mpr hinsert⟩
      · rcases List.mem_cons.mp hr with rfl | hr
        · exact hgrown'.known _ _ (Sparse.isSome_insert.mpr (.inl ⟨rfl, rfl⟩))
        · exact hknown r hr

/-- The leaves of a shard are those of the tree, at the positions of the shard. -/
structure ShardLeaves.Of (S : ShardTrees) (leaf : Nat → S.Hash) (shard : ShardLeaves) : Prop where
  element : ∀ i cmx, shard.cmxs[i]? = some cmx →
    S.fromBytes cmx = some (leaf (shard.shardIndex * shardSize + i))
  inside : shard.shardIndex * shardSize + shard.cmxs.length ≤ 2 ^ orchardDepth

theorem retainedLeaves_ok {shard : ShardLeaves} (h : shard.Of S leaf) (marked : List Nat) :
    ∃ leaves, retainedLeaves S marked shard = .ok leaves ∧
      leaves.length = shard.cmxs.length ∧
      ∀ i x, leaves[i]? = some x → x = (leaf (shard.shardIndex * shardSize + i),
        if shard.shardIndex * shardSize + i ∈ marked then .marked else .ephemeral) := by
  set leaves := shard.cmxs.zipIdx.map fun x ↦ (leaf (shard.shardIndex * shardSize + x.2),
    if shard.shardIndex * shardSize + x.2 ∈ marked then Retention.marked else .ephemeral)
    with hleaves
  refine ⟨leaves, mapM_eq_ok_map fun x hx ↦ ?_, by simp [hleaves], fun i x hx ↦ ?_⟩
  · have hget : shard.cmxs[x.2]? = some x.1 := List.mem_zipIdx_iff_getElem?.mp hx
    exact bind_eq_ok.mpr ⟨_, okOr_eq_ok.mpr (h.element _ _ hget), rfl⟩
  · rw [hleaves, List.getElem?_map, List.getElem?_zipIdx, Option.map_map,
      Option.map_eq_some_iff] at hx
    obtain ⟨cmx, -, rfl⟩ := hx
    simp

/-- The leaves of shards of a tree are inserted; they are known from then on, and marked where
that is asked for. -/
theorem insertShardLeaves_ok (law : S.Lawful combine emptyLeaf) (hk : law.Holds t k)
    (hs : k.Sound combine leaf) {shards : List ShardLeaves} (marked : List Nat)
    (hshards : ∀ shard ∈ shards, shard.Of S leaf) :
    ∃ t' k', insertShardLeaves S t marked shards = .ok t' ∧ law.Holds t' k' ∧
      k'.Sound combine leaf ∧ Grown k k' ∧ ∀ shard ∈ shards, ∀ i < shard.cmxs.length,
        (k'.known 0 (shard.shardIndex * shardSize + i)).isSome ∧
        (shard.shardIndex * shardSize + i ∈ marked →
          shard.shardIndex * shardSize + i ∈ k'.marked) := by
  induction shards generalizing t k with
  | nil => exact ⟨t, k, rfl, hk, hs, .refl k, by simp⟩
  | cons shard shards ih =>
      have hof := hshards shard List.mem_cons_self
      obtain ⟨leaves, hleaves, hlen, hget⟩ := retainedLeaves_ok hof marked
      set pairs : List (S.Hash × Bool) := leaves.map fun x ↦ (x.1, x.2 = .marked) with hpairs
      have hplen : pairs.length = shard.cmxs.length := by rw [hpairs, List.length_map, hlen]
      have hpget : ∀ i < shard.cmxs.length, pairs[i]? =
          some (leaf (shard.shardIndex * shardSize + i),
            decide (shard.shardIndex * shardSize + i ∈ marked)) := by
        intro i hi
        have hx : leaves[i]? = some leaves[i] := List.getElem?_eq_getElem (by omega)
        rw [hpairs, List.getElem?_map, hx, hget i _ hx]
        by_cases hm : shard.shardIndex * shardSize + i ∈ marked
        · simp [hm]
        · simp [hm]
      have hsound : (k.insertLeaves (shard.shardIndex * shardSize) pairs).Sound combine leaf := by
        refine Sparse.sound_insertLeaves hs fun i x hx ↦ ?_
        have hi : i < shard.cmxs.length := hplen ▸ (List.getElem?_eq_some_iff.mp hx).1
        rw [← Option.some.inj ((hpget i hi).symm.trans hx)]
      have hfits : shard.shardIndex * shardSize + leaves.length ≤ 2 ^ orchardDepth :=
        hlen ▸ hof.inside
      obtain ⟨t₁, hinsert, hk₁⟩ := law.batchInsert hk hfits hsound
      have hgrown : Grown k (k.insertLeaves (shard.shardIndex * shardSize) pairs) :=
        ⟨fun _ _ h ↦ Sparse.isSome_insertLeaves.mpr (.inr h),
          fun _ h ↦ Sparse.mem_marked_insertLeaves.mpr (.inl h), rfl⟩
      obtain ⟨t', k', hrest, hk', hs', hgrown', hknown⟩ := ih hk₁ hsound fun s hs ↦
        hshards s (List.mem_cons_of_mem _ hs)
      refine ⟨t', k', ?_, hk', hs', hgrown.trans hgrown', fun s hs i hi ↦ ?_⟩
      · rw [insertShardLeaves, List.foldlM_cons]
        refine bind_eq_ok.mpr ⟨t₁, ?_, hrest⟩
        exact bind_eq_ok.mpr ⟨leaves, hleaves, mapError_eq_ok.mpr hinsert⟩
      · rcases List.mem_cons.mp hs with rfl | hs
        · refine ⟨hgrown'.known _ _ (Sparse.isSome_insertLeaves.mpr (.inl ⟨rfl, ?_, ?_⟩)),
            fun hm ↦ hgrown'.marked _ (Sparse.mem_marked_insertLeaves.mpr (.inr
              ⟨i, leaf (s.shardIndex * shardSize + i), ?_, rfl⟩))⟩
          · exact Nat.le_add_right _ _
          · rw [hplen]
            exact Nat.add_lt_add_left hi _
          · rw [hpget i hi, decide_eq_true hm]
        · exact hknown s hs i hi

/-! ## Assembly -/

/-- The inputs describe the tree over the first `n` of these leaves: its frontier, the roots of
its shards, and the leaves of every shard with a requested note.  They may go beyond `n`. -/
structure WitnessInputs.Describes (law : S.Lawful combine emptyLeaf) (hashes : List S.Hash)
    (n : Nat) (inputs : WitnessInputs) : Prop where
  capacity : n ≤ 2 ^ orchardDepth
  frontier : ∃ f, decodeOrchardFrontier S inputs.frontierBytes = .ok f ∧
    law.view f = Frontier.ofCount combine (padded emptyLeaf hashes) n
  roots : ∀ root ∈ inputs.capRoots, root.1 < 2 ^ (orchardDepth - orchardShardHeight) ∧
    S.fromBytes root.2 = some (node combine (padded emptyLeaf hashes) orchardShardHeight root.1)
  complete : ∀ s, (s + 1) * shardSize ≤ n → ∃ root ∈ inputs.capRoots, root.1 = s
  shards : ∀ shard ∈ inputs.shardLeaves, shard.Of S (padded emptyLeaf hashes)
  covers : ∀ note ∈ inputs.notes, note.1 < n ∧ ∃ shard ∈ inputs.shardLeaves,
    shard.shardIndex = note.1 / shardSize ∧ min ((shard.shardIndex + 1) * shardSize) n ≤
      shard.shardIndex * shardSize + shard.cmxs.length

variable {hashes : List S.Hash} {inputs : WitnessInputs}

/-- The assembled tree knows enough for the root and for every path. -/
theorem assembleTree_ok {law : S.Lawful combine emptyLeaf} (h : inputs.Describes law hashes n) :
    ∃ t k, assembleTree S inputs = .ok t ∧ law.Holds t k ∧
      k.Sound combine (padded emptyLeaf hashes) ∧ k.checkpoint = some n ∧ k.HasFrontier n ∧
      k.HasRoots orchardShardHeight n ∧ ∀ note ∈ inputs.notes, note.1 ∈ k.marked ∧
        k.HasLeaves orchardShardHeight (note.1 / 2 ^ orchardShardHeight) n := by
  obtain ⟨t₁, k₁, hroots, hk₁, hs₁, hgrown₁, hknown₁⟩ :=
    insertCapRoots_ok law law.holds_empty Sparse.sound_empty h.roots
  obtain ⟨f, hf, hview⟩ := h.frontier
  have hs₂ : (k₁.insertFrontier (law.view f)).Sound combine (padded emptyLeaf hashes) :=
    hview ▸ Sparse.sound_insertFrontier hs₁ n
  obtain ⟨t₂, hfrontier, hk₂⟩ :
      ∃ t₂, S.insertFrontier t₁ f inputs.anchorHeight = .ok t₂ ∧ law.Holds t₂ _ :=
    law.insertFrontier hk₁ hgrown₁.checkpoint hs₂
  obtain ⟨t, k, hleaves, hk, hs, hgrown, hknown⟩ := insertShardLeaves_ok law hk₂ hs₂
    (inputs.notes.map Prod.fst) h.shards
  refine ⟨t, k, ?_, hk, hs, ?_, ?_, fun s hs ↦ ?_, fun note hnote ↦ ?_⟩
  · rw [assembleTree]
    refine bind_eq_ok.mpr ⟨t₁, hroots, bind_eq_ok.mpr ⟨f, hf, bind_eq_ok.mpr ⟨t₂, ?_, hleaves⟩⟩⟩
    exact mapError_eq_ok.mpr hfrontier
  · rw [hgrown.checkpoint, hview]
    cases n with
    | zero => rfl
    | succ p => rfl
  · rw [hview] at hgrown
    exact Sparse.hasFrontier_insertFrontier.mono hgrown.known
  · obtain ⟨root, hroot, rfl⟩ := h.complete s hs
    exact hgrown.known _ _ (Sparse.isSome_insertFrontier (hknown₁ root hroot))
  · obtain ⟨hlt, shard, hshard, hindex, hcovers⟩ := h.covers note hnote
    have hcover : ∀ p, note.1 / shardSize * shardSize ≤ p →
        p < (note.1 / shardSize + 1) * shardSize → p < n →
        (k.known 0 p).isSome ∧ (p ∈ inputs.notes.map Prod.fst → p ∈ k.marked) := by
      intro p hp hp' hpn
      rw [hindex] at hcovers
      have hlt : p < note.1 / shardSize * shardSize + shard.cmxs.length :=
        lt_of_lt_of_le (lt_min hp' hpn) hcovers
      have hget := hknown shard hshard _ (Nat.sub_lt_left_of_lt_add hp hlt)
      rwa [hindex, Nat.add_sub_cancel' hp] at hget
    obtain ⟨hstart, hend⟩ := Frontier.div_mul_le_lt note.1 16
    exact ⟨(hcover note.1 hstart hend hlt).2 (List.mem_map_of_mem hnote),
      fun p hp hp' hpn ↦ (hcover p hp hp' hpn).1⟩

/-- The anchor of the assembled tree, and what its paths are. -/
theorem witnesses_ok {law : S.Lawful combine emptyLeaf} (h : inputs.Describes law hashes n) :
    ∃ t, assembleTree S inputs = .ok t ∧
      S.rootAtCheckpoint t = .ok (some (anchorRoot combine emptyLeaf hashes n)) ∧
      ∀ note ∈ inputs.notes, ∃ path, S.witnessAtCheckpoint t note.1 = .ok (some path) ∧
        IsAnchorPath combine emptyLeaf hashes n note.1 path := by
  obtain ⟨t, k, ht, hk, hs, hn, hf, hr, hnotes⟩ := assembleTree_ok h
  refine ⟨t, ht, law.rootAtCheckpoint hk ?_, fun note hnote ↦ law.witnessAtCheckpoint hk ?_⟩
  · rw [anchorRoot, padded_take]
    exact Sparse.root_eq hs hn hf h.capacity
  · obtain ⟨hmark, hl⟩ := hnotes note hnote
    rw [anchorPath, padded_take]
    exact Sparse.path_eq hs hn hf hr (by decide) hl (h.covers note hnote).1 hmark

/-- A note with a path that leads to the anchor passes the check. -/
theorem noteWitness_ok {anchorHeight : Nat} {anchor : Bytes32} {note : Nat × Bytes32}
    {path : S.Path} {hash : S.Hash} (hpath : S.witnessAtCheckpoint t note.1 = .ok (some path))
    (hhash : S.fromBytes note.2 = some hash) (hroot : S.toBytes (S.pathRoot path hash) = anchor) :
    noteWitness S t anchorHeight anchor note = .ok path := by
  rw [noteWitness]
  refine bind_eq_ok.mpr ⟨_, mapError_eq_ok.mpr hpath, bind_eq_ok.mpr ⟨path, rfl, ?_⟩⟩
  exact bind_eq_ok.mpr ⟨hash, okOr_eq_ok.mpr hhash, bind_eq_ok.mpr ⟨(),
    refuseIf_eq_ok.mpr (not_not.mpr hroot), rfl⟩⟩

/-- Inputs that describe a tree get its root as the anchor and, for notes that are its leaves,
the paths of their positions. -/
theorem buildWitnesses_of_describes {law : S.Lawful combine emptyLeaf}
    (h : inputs.Describes law hashes n)
    (hnotes : ∀ note ∈ inputs.notes,
      S.fromBytes note.2 = some (padded emptyLeaf (hashes.take n) note.1)) :
    ∃ witnesses, buildWitnesses S inputs =
        .ok ⟨S.toBytes (anchorRoot combine emptyLeaf hashes n), inputs.anchorHeight, witnesses⟩ ∧
      List.Forall₂ (fun note path ↦ IsAnchorPath combine emptyLeaf hashes n note.1 path)
        inputs.notes witnesses := by
  obtain ⟨t, ht, hroot, hpaths⟩ := witnesses_ok h
  have hnote : ∀ note ∈ inputs.notes, ∃ path,
      noteWitness S t inputs.anchorHeight (S.toBytes (anchorRoot combine emptyLeaf hashes n))
        note = .ok path ∧ IsAnchorPath combine emptyLeaf hashes n note.1 path := by
    intro note hnote
    obtain ⟨path, hwitness, hpath⟩ := hpaths note hnote
    have hlt : note.1 < 2 ^ orchardDepth := lt_of_lt_of_le (h.covers note hnote).1 h.capacity
    have hclimb := climb_siblings combine (padded emptyLeaf (hashes.take n)) orchardDepth 0 note.1
    rw [node, Nat.zero_add, Nat.div_eq_of_lt hlt] at hclimb
    refine ⟨path, noteWitness_ok hwitness (hnotes note hnote) ?_, hpath⟩
    rw [hpath, anchorPath]
    exact congrArg S.toBytes hclimb
  obtain ⟨witnesses, hwitnesses, hall⟩ := exists_mapM_forall₂ hnote
  refine ⟨witnesses, ?_, hall⟩
  rw [buildWitnesses]
  exact bind_eq_ok.mpr ⟨t, ht, bind_eq_ok.mpr ⟨_, mapError_eq_ok.mpr hroot,
    bind_eq_ok.mpr ⟨_, rfl, bind_eq_ok.mpr ⟨witnesses, hwitnesses, rfl⟩⟩⟩⟩

end Laws

/-! ## A lawful tree -/

section Reference

variable {H : Type} (combine : Nat → H → H → H) (emptyLeaf : H) (fromBytes : Bytes32 → Option H)
  (toBytes : H → Bytes32)

/-- A frontier that fits a tree of the depth. -/
abbrev FrontierAt (H : Type) := { f : Option (Frontier H) // ∀ g, f = some g → g.position < 2 ^ 32 }

theorem FrontierAt.position_lt {leaf : Nat → H} {n : Nat} (h : n ≤ 2 ^ 32) (g : Frontier H)
    (hg : Frontier.ofCount combine leaf n = some g) : g.position < 2 ^ 32 := by
  cases n with
  | zero => cases hg
  | succ p =>
      cases hg
      exact h

/-- The frontier of `n` leaves, if they fit. -/
def FrontierAt.ofCount (leaf : Nat → H) (n : Nat) : FrontierAt H :=
  if h : n ≤ 2 ^ 32 then ⟨Frontier.ofCount combine leaf n, FrontierAt.position_lt combine h⟩
  else ⟨none, nofun⟩

variable {combine} in
theorem FrontierAt.val_ofCount {leaf : Nat → H} {n : Nat} (h : n ≤ 2 ^ 32) :
    (FrontierAt.ofCount combine leaf n).1 = Frontier.ofCount combine leaf n := by
  rw [FrontierAt.ofCount, dif_pos h]

/-- What is determined as of the checkpoint; without one there is no answer. -/
def sparseAnswer {α : Type} (t : Sparse H) (determined : Option α) : Except String (Option α) :=
  match determined with
  | some a => .ok (some a)
  | none => if t.checkpoint = none then .ok none else .error "incomplete tree"

theorem sparseAnswer_eq_some {α : Type} {t : Sparse H} {determined : Option α} {a : α} :
    sparseAnswer t determined = .ok (some a) ↔ determined = some a := by
  cases determined with
  | some b => simp [sparseAnswer]
  | none =>
      rw [sparseAnswer]
      split
      · simp
      · simp

variable (read : List UInt8 → Except String (FrontierAt H))

/-- The sparse tree as the upstream one.  A path is a position with its siblings. -/
def sparseTrees : ShardTrees where
  Hash := H
  Frontier := FrontierAt H
  Path := Nat × List H
  Tree := Sparse H
  fromBytes
  toBytes
  readCommitmentTree := read
  emptyFrontier := ⟨none, nofun⟩
  frontierPosition f := f.1.map Frontier.position
  frontierRoot f := Frontier.rootOf combine emptyLeaf f.1 orchardDepth
  empty := .empty
  insert t i hash := .ok (t.insert orchardShardHeight i hash)
  insertFrontier t f _ := .ok (t.insertFrontier f.1)
  batchInsert t start leaves := .ok (t.insertLeaves start (leaves.map fun x ↦ (x.1, x.2 = .marked)))
  rootAtCheckpoint t := sparseAnswer t (t.root combine emptyLeaf orchardDepth)
  witnessAtCheckpoint t p :=
    sparseAnswer t ((t.path combine emptyLeaf orchardDepth p).map fun siblings ↦ (p, siblings))
  pathRoot path hash := climb combine 0 path.1 hash path.2

variable {fromBytes toBytes}

def sparseTrees_lawful (hto : ∀ hash, fromBytes (toBytes hash) = some hash)
    (hfrom : ∀ bytes hash, fromBytes bytes = some hash → toBytes hash = bytes) :
    (sparseTrees combine emptyLeaf fromBytes toBytes read).Lawful combine emptyLeaf where
  fromBytes_toBytes := hto
  toBytes_fromBytes := hfrom
  view := Subtype.val
  view_empty := rfl
  position_lt f := f.2
  frontierPosition_eq _ := rfl
  frontierRoot_eq _ := rfl
  Holds t k := t = k
  holds_empty := rfl
  insert := by
    rintro t k i hash leaf rfl - -
    exact ⟨_, rfl, rfl⟩
  insertFrontier := by
    rintro t k f id leaf rfl - -
    exact ⟨_, rfl, rfl⟩
  batchInsert := by
    rintro t k start leaves leaf rfl - -
    exact ⟨_, rfl, rfl⟩
  rootAtCheckpoint := by
    rintro t k root rfl h
    exact sparseAnswer_eq_some.mpr h
  witnessAtCheckpoint := by
    rintro t k p siblings rfl h
    exact ⟨(p, siblings), sparseAnswer_eq_some.mpr (Option.map_eq_some_iff.mpr ⟨_, h, rfl⟩),
      fun _ ↦ rfl⟩
  pathRoot_eq := by
    intro t p path h
    obtain ⟨siblings, hpath, rfl⟩ := Option.map_eq_some_iff.mp (sparseAnswer_eq_some.mp h)
    exact ⟨siblings, Sparse.length_of_path hpath, fun _ ↦ rfl⟩

end Reference

end LedgerZcash
