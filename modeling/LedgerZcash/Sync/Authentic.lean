import LedgerZcash.Crypto.Authentication
import LedgerZcash.Sync.Pairing
import LedgerZcash.Sync.Shards

/-!
# Witnesses from an authentic server

An authentic server answers with the tree states and the shard roots of the chain's own
commitment tree.  Against it every note of the chain gets the path of its position, under
the root of the tree at the anchor height (`computeWitnesses_authentic`); the root computed
from the frontier alone is the same (`fetchAnchor_eq`), and so are the roots computed from
a completed shard's leaves without the server (`computeShardRoot_authentic`).

Nothing is assumed about the server in `computeWitnesses_binding`: it cannot get a note
accepted, under the root of the chain's tree, that is not the chain's leaf, unless the hash
collides along the path that it gets for the note.
-/

namespace LedgerZcash

open Hex Collect Merkle

section Server

variable {S : ShardTrees} {combine : Nat → S.Hash → S.Hash → S.Hash} {emptyLeaf : S.Hash}
  {law : S.Lawful combine emptyLeaf} {srv : Server} {c : Chain} {tip anchor : Nat} {pool : Pool}
  {hashes : Pool → List S.Hash}

/-- A server that answers for the chain up to its tip, with the frontiers and the shard roots of
the tree over the chain's commitments. -/
structure Authentic (law : S.Lawful combine emptyLeaf) (srv : Server) (c : Chain) (tip : Nat)
    (hashes : Pool → List S.Hash) : Prop where
  blocks : c.Serves srv
  leaves : ∀ pool, ∃ leaves, poolLeaves pool c.blocks = .ok leaves ∧
    List.Forall₂ (fun cmx hash ↦ S.fromBytes cmx = some hash) leaves (hashes pool)
  answers : ∀ h, 0 < h → h ≤ tip → ∃ ts, srv.getTreeState h = .ok ts
  states : ∀ h ts, srv.getTreeState h = .ok ts → h ≤ tip ∧ ∀ pool : Pool, ∃ bytes f,
    Hex.decode (pool.treeStateHex ts) = .ok bytes ∧ decodeOrchardFrontier S bytes = .ok f ∧
      law.view f = Frontier.ofCount combine (padded emptyLeaf (hashes pool)) (c.size pool h)
  roots : ∀ pool, ∃ roots, srv.getSubtreeRoots pool 0 = .ok (roots.map .ok) ∧
    c.RootsUpTo pool tip roots ∧ ∀ s root, roots[s]? = some root →
      ∃ bytes, Arr.tryFrom 32 root.rootHash = some bytes ∧ S.fromBytes bytes =
        some (node combine (padded emptyLeaf (hashes pool)) orchardShardHeight s)

theorem frontierLeafCount_ofCount (law : S.Lawful combine emptyLeaf) {leaf : Nat → S.Hash} {n : Nat}
    {bytes : List UInt8} {f : S.Frontier} (hf : decodeOrchardFrontier S bytes = .ok f)
    (hview : law.view f = Frontier.ofCount combine leaf n) :
    frontierLeafCount S bytes = .ok n := by
  refine bind_eq_ok.mpr ⟨f, hf, pure_eq_ok.mpr ?_⟩
  rw [law.frontierPosition_eq, hview, Frontier.position_ofCount]

theorem Authentic.truthful (ha : Authentic law srv c tip hashes) : Truthful S srv c tip where
  blocks := ha.blocks
  answers := ha.answers
  states h ts hts := by
    obtain ⟨hle, hpools⟩ := ha.states h ts hts
    refine ⟨hle, fun pool ↦ ?_⟩
    obtain ⟨bytes, f, hbytes, hf, hview⟩ := hpools pool
    exact ⟨bytes, hbytes, frontierLeafCount_ofCount law hf hview⟩
  roots pool := by
    obtain ⟨roots, hroots, hr, -⟩ := ha.roots pool
    exact ⟨roots, hroots, hr⟩

/-- There are no more shards than the tree has room for. -/
theorem shard_lt {s n : Nat} (hs : (s + 1) * shardSize ≤ n) (hn : n ≤ 2 ^ orchardDepth) :
    s < 2 ^ (orchardDepth - orchardShardHeight) := by
  have hle : (s + 1) * shardSize ≤ 2 ^ 16 * shardSize := hs.trans hn
  exact Nat.lt_of_succ_le (Nat.le_of_mul_le_mul_right hle shardSize_pos)

/-- The roots handed over are those of the tree's shards. -/
theorem capRoots_describe (hf : c.Fits tip) {roots : List Proto.SubtreeRoot}
    (hr : c.RootsUpTo pool tip roots)
    (hhash : ∀ s root, roots[s]? = some root → ∃ bytes, Arr.tryFrom 32 root.rootHash = some bytes ∧
      S.fromBytes bytes =
        some (node combine (padded emptyLeaf (hashes pool)) orchardShardHeight s)) :
    ∃ cap, capRoots roots = .ok cap ∧ ∀ root ∈ cap,
      root.1 < 2 ^ (orchardDepth - orchardShardHeight) ∧ S.fromBytes root.2 =
        some (node combine (padded emptyLeaf (hashes pool)) orchardShardHeight root.1) := by
  obtain ⟨cap, hcap, hall⟩ := exists_mapM_forall₂ (l := roots.zipIdx)
    (f := fun x ↦ do
      let bytes ← orElse (Arr.tryFrom 32 x.1.rootHash)
        "GetSubtreeRoots returned a root that is not 32 bytes"
      pure (asU32 x.2, bytes))
    (P := fun _ root ↦ root.1 < 2 ^ (orchardDepth - orchardShardHeight) ∧ S.fromBytes root.2 =
      some (node combine (padded emptyLeaf (hashes pool)) orchardShardHeight root.1))
    fun x hx ↦ by
      have hget : roots[x.2]? = some x.1 := List.mem_zipIdx_iff_getElem?.mp hx
      obtain ⟨bytes, hbytes, hroot⟩ := hhash _ _ hget
      have hlt : x.2 < roots.length := (List.getElem?_eq_some_iff.mp hget).1
      have hidx : asU32 x.2 = x.2 := asU32_of_lt (lt_trans hlt (hr.length_lt hf))
      refine ⟨(asU32 x.2, bytes), ?_, ?_⟩
      · exact bind_eq_ok.mpr ⟨bytes, by rw [hbytes]; rfl, rfl⟩
      · rw [hidx]
        exact ⟨shard_lt (hr.lt_length_iff.mp hlt) (hf.capacity pool), hroot⟩
  exact ⟨cap, hcap, fun root hroot ↦ by
    obtain ⟨-, -, h⟩ := exists_of_forall₂_right hall hroot
    exact h⟩

/-- A needed shard holds leaves of the tree. -/
theorem shardSlice_of (hf : c.Fits tip) {roots : List Proto.SubtreeRoot}
    (hr : c.RootsUpTo pool tip roots) {leaves : List Bytes32}
    (hl : poolLeaves pool c.blocks = .ok leaves)
    (hhashes : List.Forall₂ (fun cmx hash ↦ S.fromBytes cmx = some hash) leaves (hashes pool))
    (hle : anchor ≤ tip) {s : Nat} (hs : s * shardSize < c.size pool anchor) :
    (shardSlice leaves s (shardEnd s (asU32 roots.length) (c.size pool anchor))).Of S
      (padded emptyLeaf (hashes pool)) := by
  obtain ⟨hstart, hlen⟩ := shardEnd_le_length hf hr hl hle hs
  have he := scanEnds_shardEndHeight hf hr hle hs
  refine ⟨fun i cmx hget ↦ ?_, ?_⟩
  · obtain ⟨hash, hhash, hbytes⟩ := exists_getElem?_of_forall₂ hhashes (getElem?_shardSlice hget)
    show S.fromBytes cmx = some (padded emptyLeaf (hashes pool) (s * shardSize + i))
    rw [hbytes, padded, List.getD_eq_getElem?_getD, hhash, Option.getD_some]
  · show s * shardSize + _ ≤ _
    rw [length_shardSlice hstart hlen]
    exact he.end_le.trans ((c.size_mono pool he.le_tip).trans (hf.capacity pool))

/-- Once the guards have passed, only the shard leaves and the roots can fail. -/
theorem witnessInputs_eq {req : WitnessRequest} {ts : Proto.TreeState} {bytes : List UInt8}
    {total : Nat} {roots : List Proto.SubtreeRoot} (hne : req.notes ≠ [])
    (hconn : srv.connect = .ok ())
    (hresolve : resolveAnchor srv req.anchorHeight req.anchorDepthBlocks = .ok anchor)
    (hts : srv.getTreeState anchor = .ok ts)
    (hbytes : Hex.decode (pool.treeStateHex ts) = .ok bytes)
    (hcount : frontierLeafCount S bytes = .ok total)
    (hnotes : ∀ n ∈ req.notes, n.position < total)
    (hroots : srv.getSubtreeRoots pool 0 = .ok (roots.map .ok)) :
    witnessInputs S srv pool req =
      (fetchShardLeaves S srv pool roots anchor total (neededShards req.notes) >>= fun shardLeaves ↦
        capRoots roots >>= fun capRoots ↦
          pure
            { capRoots, frontierBytes := bytes, anchorHeight := anchor, shardLeaves
              notes := req.notes.map fun n ↦ (n.position, n.cmx) }) := by
  have hnonempty : checkPoolNonempty pool total anchor = .ok () := by
    obtain ⟨n, hn⟩ := List.exists_mem_of_ne_nil _ hne
    have hlt := hnotes n hn
    rw [checkPoolNonempty, if_neg (by omega)]
    rfl
  rw [witnessInputs, if_neg hne, orFail_eq_ok.mpr hconn, ok_bind, hresolve, ok_bind,
    witnessInputsAt, getTreeStateAt, orFail_eq_ok.mpr hts, ok_bind, orFail_eq_ok.mpr hbytes,
    ok_bind, orFail_eq_ok.mpr hcount, ok_bind, hnonempty, ok_bind,
    checkNotePositions_eq_ok.mpr hnotes, ok_bind, getSubtreeRoots_eq hroots, ok_bind]

/-- What is fetched for a request describes the tree at the anchor, unless the scan for shard 0 is
refused. -/
theorem witnessInputs_describe (ha : Authentic law srv c tip hashes) (hf : c.Fits tip)
    {req : WitnessRequest} (hconn : srv.connect = .ok ())
    (hresolve : resolveAnchor srv req.anchorHeight req.anchorDepthBlocks = .ok anchor)
    (hpos : 0 < anchor) (hle : anchor ≤ tip) (hne : req.notes ≠ [])
    (hnotes : ∀ n ∈ req.notes, n.position < c.size pool anchor) :
    (∃ inputs, witnessInputs S srv pool req = .ok inputs ∧ inputs.anchorHeight = anchor ∧
      inputs.notes = req.notes.map (fun n ↦ (n.position, n.cmx)) ∧
      inputs.Describes law (hashes pool) (c.size pool anchor)) ∨
    (0 ∈ neededShards req.notes ∧ ∃ start stop, stop ≤ tip ∧ maxFirstLeafScanBlocks < stop - start ∧
      witnessInputs S srv pool req = .error (widthError pool start stop)) := by
  have ht := ha.truthful
  obtain ⟨leaves, hl, hhashes⟩ := ha.leaves pool
  obtain ⟨ts, hts⟩ := ha.answers anchor hpos hle
  obtain ⟨bytes, f, hbytes, hdecode, hview⟩ := (ha.states anchor ts hts).2 pool
  obtain ⟨roots, hroots, hr, hhash⟩ := ha.roots pool
  obtain ⟨cap, hcap, hcaps⟩ := capRoots_describe hf hr hhash
  have hcapacity : c.size pool anchor ≤ 2 ^ orchardDepth :=
    (c.size_mono pool hle).trans (hf.capacity pool)
  have hlt : ∀ s ∈ neededShards req.notes, s * shardSize < c.size pool anchor :=
    fun s hs ↦ neededShards_lt hnotes hs
  have heq := witnessInputs_eq hne hconn hresolve hts hbytes
    (frontierLeafCount_ofCount law hdecode hview) hnotes hroots
  rcases fetchShardLeaves_eq ht hf hr hl hle hlt with hok | ⟨h0, start, stop, hstop, hwide, herr⟩
  · rw [hok, ok_bind, hcap, ok_bind] at heq
    refine .inl ⟨_, heq, rfl, rfl, hcapacity, ⟨f, hdecode, hview⟩, hcaps, fun s hs ↦ ?_,
      fun shard hshard ↦ ?_, fun note hnote ↦ ?_⟩
    · exact (mem_capRoots hf hr hcap).mpr (hs.trans (c.size_mono pool hle))
    · obtain ⟨s, hs, rfl⟩ := List.mem_map.mp hshard
      exact shardSlice_of hf hr hl hhashes hle (hlt s hs)
    · obtain ⟨n, hn, rfl⟩ := List.mem_map.mp hnote
      have hidx : asU32 (n.position / shardSize) = n.position / shardSize :=
        asU32_of_lt (lt_of_le_of_lt (Nat.div_le_self _ _) (lt_of_lt_of_le (hnotes n hn) hcapacity))
      have hmem : n.position / shardSize ∈ neededShards req.notes :=
        mem_neededShards.mpr ⟨n, hn, hidx⟩
      refine ⟨hnotes n hn, _, List.mem_map.mpr ⟨_, hmem, rfl⟩, rfl, ?_⟩
      exact (aligned_shardSlice hf hr hl hle (hlt _ hmem)).covers
  · rw [herr] at heq
    exact .inr ⟨h0, start, stop, hstop, hwide, heq⟩

/-- Notes of the chain get the paths of their positions, under the root of the tree at the
anchor; only an implausibly wide scan for shard 0 is refused. -/
theorem computeWitnesses_of_leaves (ha : Authentic law srv c tip hashes) (hf : c.Fits tip)
    {req : WitnessRequest} (hconn : srv.connect = .ok ())
    (hresolve : resolveAnchor srv req.anchorHeight req.anchorDepthBlocks = .ok anchor)
    (hpos : 0 < anchor) (hle : anchor ≤ tip) (hne : req.notes ≠ [])
    (hnotes : ∀ n ∈ req.notes, n.position < c.size pool anchor ∧
      S.fromBytes n.cmx = (hashes pool)[n.position]?) :
    (∃ witnesses, computeWitnessesForPool S srv pool req =
        .ok ⟨S.toBytes (anchorRoot combine emptyLeaf (hashes pool) (c.size pool anchor)), anchor,
          witnesses⟩ ∧
      List.Forall₂ (fun n path ↦ IsAnchorPath combine emptyLeaf (hashes pool) (c.size pool anchor)
        n.position path) req.notes witnesses) ∨
    (0 ∈ neededShards req.notes ∧ ∃ start stop, stop ≤ tip ∧ maxFirstLeafScanBlocks < stop - start ∧
      computeWitnessesForPool S srv pool req = .error (widthError pool start stop)) := by
  obtain ⟨leaves, hl, hhashes⟩ := ha.leaves pool
  have hsize : c.size pool anchor ≤ (hashes pool).length := by
    rw [← hhashes.length_eq, Chain.length_of_poolLeaves hl]
    exact (Chain.located_sublist List.filter_sublist |>.flatMap _).length_le
  rcases witnessInputs_describe ha hf hconn hresolve hpos hle hne fun n hn ↦ (hnotes n hn).1 with
    ⟨inputs, hinputs, hanchor, hmap, hdescribes⟩ | ⟨h0, start, stop, hstop, hwide, herr⟩
  · obtain ⟨witnesses, hbuild, hall⟩ := buildWitnesses_of_describes hdescribes fun note hnote ↦ by
      rw [hmap, List.mem_map] at hnote
      obtain ⟨n, hn, rfl⟩ := hnote
      obtain ⟨hlt, hcmx⟩ := hnotes n hn
      rw [hcmx, padded, List.getD_eq_getElem?_getD, List.getElem?_take, if_pos hlt,
        List.getElem?_eq_getElem (lt_of_lt_of_le hlt hsize), Option.getD_some]
    refine .inl ⟨witnesses, ?_, ?_⟩
    · rw [computeWitnessesForPool, hinputs, ok_bind, hbuild, hanchor]
      rfl
    · rwa [hmap, List.forall₂_map_left_iff] at hall
  · refine .inr ⟨h0, start, stop, hstop, hwide, ?_⟩
    rw [computeWitnessesForPool, herr]
    rfl

/-- The root computed from the frontier alone is that of the same tree. -/
theorem fetchAnchor_eq (ha : Authentic law srv c tip hashes) (hf : c.Fits tip)
    {height depth : Option Nat} (hconn : srv.connect = .ok ())
    (hresolve : resolveAnchor srv height depth = .ok anchor) (hpos : 0 < anchor)
    (hle : anchor ≤ tip) : fetchAnchorForPool S srv pool height depth =
      .ok ⟨S.toBytes (anchorRoot combine emptyLeaf (hashes pool) (c.size pool anchor)), anchor,
        []⟩ := by
  obtain ⟨ts, hts⟩ := ha.answers anchor hpos hle
  obtain ⟨bytes, f, hbytes, hdecode, hview⟩ := (ha.states anchor ts hts).2 pool
  have hanchor : frontierAnchor S bytes =
      .ok (S.toBytes (anchorRoot combine emptyLeaf (hashes pool) (c.size pool anchor))) := by
    have hcapacity : c.size pool anchor ≤ 2 ^ orchardDepth :=
      (c.size_mono pool hle).trans (hf.capacity pool)
    rw [frontierAnchor, hdecode, ok_bind, law.frontierRoot_eq, hview,
      Frontier.rootOf_ofCount hcapacity, anchorRoot, padded_take]
    rfl
  rw [fetchAnchorForPool, orFail_eq_ok.mpr hconn, ok_bind, hresolve, ok_bind, getTreeStateAt,
    orFail_eq_ok.mpr hts, ok_bind, orFail_eq_ok.mpr hbytes, ok_bind, orFail_eq_ok.mpr hanchor]
  rfl

/-- For every request for notes of the chain and whatever completes above the anchor: each note
gets the path of its position, the anchor is the root of the tree over the commitments up to the
anchor height, and the anchor fetched alone is the same.  Only an implausibly wide scan for shard 0
is refused. -/
theorem computeWitnesses_authentic (ha : Authentic law srv c tip hashes) (hf : c.Fits tip)
    {req : WitnessRequest} (hconn : srv.connect = .ok ())
    (hresolve : resolveAnchor srv req.anchorHeight req.anchorDepthBlocks = .ok anchor)
    (hpos : 0 < anchor) (hle : anchor ≤ tip) (hne : req.notes ≠ [])
    (hnotes : ∀ n ∈ req.notes, n.position < c.size pool anchor ∧
      S.fromBytes n.cmx = (hashes pool)[n.position]?) :
    ∃ root, root = S.toBytes
        (anchorRoot combine emptyLeaf (hashes pool) (c.size pool anchor)) ∧
      fetchAnchorForPool S srv pool req.anchorHeight req.anchorDepthBlocks =
        .ok ⟨root, anchor, []⟩ ∧
      ((∃ witnesses, computeWitnessesForPool S srv pool req = .ok ⟨root, anchor, witnesses⟩ ∧
        List.Forall₂ (fun n path ↦ IsAnchorPath combine emptyLeaf (hashes pool)
          (c.size pool anchor) n.position path) req.notes witnesses) ∨
      (0 ∈ neededShards req.notes ∧
        ∃ start stop, stop ≤ tip ∧ maxFirstLeafScanBlocks < stop - start ∧
          computeWitnessesForPool S srv pool req = .error (widthError pool start stop))) :=
  ⟨_, rfl, fetchAnchor_eq ha hf hconn hresolve hpos hle,
    computeWitnesses_of_leaves ha hf hconn hresolve hpos hle hne hnotes⟩

/-! ## Any server -/

theorem leafCount_le (law : S.Lawful combine emptyLeaf) {bytes : List UInt8} {total : Nat}
    (h : frontierLeafCount S bytes = .ok total) : total ≤ 2 ^ orchardDepth := by
  obtain ⟨f, -, htotal⟩ := bind_eq_ok.mp h
  rw [law.frontierPosition_eq, pure_eq_ok] at htotal
  cases hview : law.view f with
  | none =>
      rw [hview] at htotal
      exact htotal ▸ Nat.zero_le _
  | some g =>
      rw [hview] at htotal
      exact htotal ▸ law.position_lt f g hview

/-- A returned path ties its note to the tree over the first `n` leaves: it climbs by its own
siblings from the note's position, and the note's commitment is the tree's leaf there, unless the
climb from the commitment by these siblings meets a collision. -/
def TiesNote (combine : Nat → S.Hash → S.Hash → S.Hash) (emptyLeaf : S.Hash) (leaves : List S.Hash)
    (n : Nat) (note : NoteRef) (path : S.Path) : Prop :=
  ∃ hash siblings, S.fromBytes note.cmx = some hash ∧ siblings.length = orchardDepth ∧
    (∀ h, S.pathRoot path h = climb combine 0 note.position h siblings) ∧
    (hash = padded emptyLeaf (leaves.take n) note.position ∨
      Collides combine (padded emptyLeaf (leaves.take n)) 0 note.position hash siblings)

/-- A path that was checked against the root of a tree ties its note to that tree. -/
theorem tiesNote_of_hasWitness (law : S.Lawful combine emptyLeaf) {t : S.Tree} {anchor : Bytes32}
    {note : NoteRef} {path : S.Path} {leaves : List S.Hash} {n : Nat}
    (h : HasWitness S t anchor (note.position, note.cmx) path)
    (hlt : note.position < 2 ^ orchardDepth)
    (hanchor : anchor = S.toBytes (anchorRoot combine emptyLeaf leaves n)) :
    TiesNote combine emptyLeaf leaves n note path := by
  obtain ⟨hash, hhash, hroot⟩ := h.root
  obtain ⟨siblings, hlen, hclimb⟩ := law.pathRoot_eq h.answers
  have heq : climb combine 0 note.position hash siblings =
      anchorRoot combine emptyLeaf leaves n := by
    rw [← hclimb, ← Option.some.injEq, ← law.fromBytes_toBytes, ← law.fromBytes_toBytes, hroot,
      hanchor]
  have hend : climb combine 0 note.position hash siblings =
      node combine (padded emptyLeaf (leaves.take n)) (0 + siblings.length)
        (note.position / 2 ^ siblings.length) := by
    rw [heq, hlen, Nat.zero_add, Nat.div_eq_of_lt hlt, anchorRoot]
  exact ⟨hash, siblings, hhash, hlen, hclimb, eq_or_collides_of_climb hend⟩

/-- Under the root of a tree no server gets a note accepted that is not the tree's leaf at its
position, unless the hash collides along the path that is returned for the note. -/
theorem computeWitnesses_binding (law : S.Lawful combine emptyLeaf) {req : WitnessRequest}
    {out : WitnessOutput S} (h : computeWitnessesForPool S srv pool req = .ok out)
    {leaves : List S.Hash} {n : Nat}
    (hanchor : out.anchor = S.toBytes (anchorRoot combine emptyLeaf leaves n)) :
    List.Forall₂ (TiesNote combine emptyLeaf leaves n) req.notes out.witnesses := by
  obtain ⟨inputs, hinputs, hbuild⟩ := bind_eq_ok.mp h
  obtain ⟨t, root, -, -, -, hall⟩ := buildWitnesses_eq_ok (orFail_eq_ok.mp hbuild)
  obtain ⟨stages⟩ := witnessInputs_eq_ok hinputs
  rw [stages.notes_eq, List.forall₂_map_left_iff] at hall
  -- the guard on the positions keeps them inside the tree, whatever the server answers
  have hlt : ∀ note ∈ req.notes, note.position < 2 ^ orchardDepth := fun note hnote ↦
    lt_of_lt_of_le (checkNotePositions_eq_ok.mp stages.positions_eq note hnote)
      (leafCount_le law stages.total_eq)
  exact ((List.forall₂_and_left _ _).mpr ⟨hlt, hall⟩).imp fun note path hw ↦
    tiesNote_of_hasWitness law hw.2 hw.1 hanchor

/-! ## Shard roots without the server -/

/-- The root computed from a completed shard's leaves is the one that the server returns. -/
theorem computeShardRoot_authentic (ha : Authentic law srv c tip hashes)
    {leaves : List Bytes32} {roots : List Proto.SubtreeRoot} {s : Nat} {root : Proto.SubtreeRoot}
    (hl : poolLeaves pool c.blocks = .ok leaves)
    (hroots : getSubtreeRootsForProtocol srv pool 0 = .ok roots) (hroot : roots[s]? = some root) :
    ∃ bytes, Arr.tryFrom 32 root.rootHash = some bytes ∧
      computeShardRoot S combine (shardSlice leaves s ((s + 1) * shardSize)).cmxs =
        some (.ok bytes) := by
  obtain ⟨leaves', hl', hhashes⟩ := ha.leaves pool
  obtain rfl : leaves = leaves' := Except.ok.inj (hl.symm.trans hl')
  obtain ⟨roots', hroots', hr, hhash⟩ := ha.roots pool
  obtain rfl : roots = roots' := Except.ok.inj (hroots.symm.trans (getSubtreeRoots_eq hroots'))
  obtain ⟨bytes, hbytes, hnode⟩ := hhash s root hroot
  have hend : (s + 1) * shardSize ≤ c.size pool tip :=
    hr.lt_length_iff.mp (List.getElem?_eq_some_iff.mp hroot).1
  have hsize : c.size pool tip ≤ leaves.length := by
    rw [Chain.length_of_poolLeaves hl]
    exact (Chain.located_sublist List.filter_sublist |>.flatMap _).length_le
  set nodes := ((hashes pool).take ((s + 1) * shardSize)).drop (s * shardSize) with hnodes
  have hlen : nodes.length = 2 ^ orchardShardHeight := by
    rw [hnodes, List.length_drop, List.length_take, ← hhashes.length_eq,
      min_eq_left (hend.trans hsize), succ_mul_shardSize, Nat.add_sub_cancel_left]
    rfl
  have hparse : parseLeaves S (shardSlice leaves s ((s + 1) * shardSize)).cmxs = .ok nodes :=
    parseLeaves_eq_ok.mpr (List.forall₂_drop _ (List.forall₂_take _ hhashes))
  have hroot : Merkle.root combine orchardShardHeight nodes hlen =
      node combine (padded emptyLeaf (hashes pool)) orchardShardHeight s := by
    refine root_eq_node fun q hq ↦ ?_
    have hlt : s * shardSize + q < (s + 1) * shardSize := by
      rw [succ_mul_shardSize]
      exact Nat.add_lt_add_left hq _
    have hmem : s * shardSize + q < (hashes pool).length :=
      hhashes.length_eq ▸ lt_of_lt_of_le hlt (hend.trans hsize)
    show nodes[q]? = some (padded emptyLeaf (hashes pool) (s * shardSize + q))
    rw [hnodes, List.getElem?_drop, List.getElem?_take, if_pos hlt, padded,
      List.getD_eq_getElem?_getD, List.getElem?_eq_getElem hmem, Option.getD_some]
  refine ⟨bytes, hbytes, ?_⟩
  rw [computeShardRoot, computeShardRootAt_of_ok hparse hlen, hroot,
    law.toBytes_fromBytes _ _ hnode]

end Server

/-! ## A server for a chain -/

section ChainServer

variable {H : Type} (combine : Nat → H → H → H) (emptyLeaf : H) (c : Chain)
  (hashes : Pool → List H)

/-- The frontier of a pool at a height. -/
def heightFrontier (pool : Pool) (h : Nat) : FrontierAt H :=
  FrontierAt.ofCount combine (padded emptyLeaf (hashes pool)) (c.size pool h)

/-- A tree state is its height, with a mark for Ironwood. -/
def readHeight (bytes : List UInt8) : Except String (FrontierAt H) :=
  match bytes with
  | [h] => .ok (heightFrontier combine emptyLeaf c hashes .orchard h.toNat)
  | [h, 0] => .ok (heightFrontier combine emptyLeaf c hashes .ironwood h.toNat)
  | _ => .error "not a commitment tree"

/-- A server for a chain, apart from full transactions. -/
def chainServer (base : Server) (tip : Nat) (roots : Pool → List Proto.SubtreeRoot) : Server where
  connect := .ok ()
  getLatestBlock := .ok tip
  getBlockRange s e := .ok ((c.slice s e).map .ok)
  getTransaction := base.getTransaction
  getTreeState h :=
    if h ≤ tip then
      .ok ⟨Hex.encode [UInt8.ofNat h], Hex.encode [UInt8.ofNat h, 0]⟩
    else .error "no such block"
  getSubtreeRoots pool _ := .ok ((roots pool).map .ok)

variable {combine emptyLeaf c hashes} {fromBytes : Bytes32 → Option H} {toBytes : H → Bytes32}
  {tip : Nat} {roots : Pool → List Proto.SubtreeRoot}

/-- The server answers with the chain's own tree when it is given the roots of its shards. -/
theorem chainServer_authentic (base : Server)
    (law : (sparseTrees combine emptyLeaf fromBytes toBytes
      (readHeight combine emptyLeaf c hashes)).Lawful combine emptyLeaf)
    (hview : law.view = Subtype.val) (hf : c.Fits tip) (htip : tip < 256)
    (hleaves : ∀ pool, ∃ leaves, poolLeaves pool c.blocks = .ok leaves ∧
      List.Forall₂ (fun cmx hash ↦ fromBytes cmx = some hash) leaves (hashes pool))
    (hroots : ∀ pool, c.RootsUpTo pool tip (roots pool) ∧ ∀ s root, (roots pool)[s]? = some root →
      ∃ bytes, Arr.tryFrom 32 root.rootHash = some bytes ∧ fromBytes bytes =
        some (node combine (padded emptyLeaf (hashes pool)) orchardShardHeight s)) :
    Authentic law (chainServer c base tip roots) c tip hashes where
  blocks _ _ := rfl
  leaves := hleaves
  answers h _ hle := ⟨_, if_pos hle⟩
  states h ts hts := by
    obtain ⟨hle, rfl⟩ : h ≤ tip ∧ ts =
        ⟨Hex.encode [UInt8.ofNat h], Hex.encode [UInt8.ofNat h, 0]⟩ := by
      simp only [chainServer] at hts
      split at hts
      · exact ⟨‹_›, (Except.ok.inj hts).symm⟩
      · cases hts
    have hbyte : (UInt8.ofNat h).toNat = h := UInt8.toNat_ofNat_of_lt (lt_of_le_of_lt hle htip)
    refine ⟨hle, fun pool ↦ ?_⟩
    have hsize : c.size pool h ≤ 2 ^ 32 := (c.size_mono pool hle).trans (hf.capacity pool)
    have hfrontier : (heightFrontier combine emptyLeaf c hashes pool h).1 =
        Frontier.ofCount combine (padded emptyLeaf (hashes pool)) (c.size pool h) := by
      rw [heightFrontier, FrontierAt.val_ofCount hsize]
    cases pool with
    | orchard =>
        refine ⟨_, heightFrontier combine emptyLeaf c hashes .orchard h, decode_encode _, ?_, ?_⟩
        · conv_rhs => rw [← hbyte]
          rfl
        · rw [hview]
          exact hfrontier
    | ironwood =>
        refine ⟨_, heightFrontier combine emptyLeaf c hashes .ironwood h, decode_encode _, ?_, ?_⟩
        · conv_rhs => rw [← hbyte]
          rfl
        · rw [hview]
          exact hfrontier
  roots pool := ⟨roots pool, rfl, hroots pool⟩

end ChainServer

/-! ## A shard that completes above the anchor -/

section Sample

/-- Not a hash function, but one that tells left from right and one level from another. -/
def mix (level : Nat) (left right : Bytes32) : Bytes32 :=
  ⟨List.zipWith (fun a b ↦ a + 2 * b + UInt8.ofNat level) left.1 right.1,
    by rw [List.length_zipWith, left.2, right.2, Nat.min_self]⟩

/-- The leaves of `shardChain`: 65535 up to block 1, and one more in block 2. -/
def shardHashes : Pool → List Bytes32
  | .orchard => pairLeaves 65535 1
  | .ironwood => []

def mixTrees (c : Chain) (hashes : Pool → List Bytes32) : ShardTrees :=
  sparseTrees mix (fill 32 2) some id (readHeight mix (fill 32 2) c hashes)

def mixTrees_lawful (c : Chain) (hashes : Pool → List Bytes32) :
    (mixTrees c hashes).Lawful mix (fill 32 2) :=
  sparseTrees_lawful mix (fill 32 2) _ (fun _ ↦ rfl) fun _ _ h ↦ (Option.some.inj h).symm

/-- The root of shard 0, complete at block 2. -/
@[irreducible] def shardRoot : Bytes32 :=
  node mix (padded (fill 32 2) (shardHashes .orchard)) orchardShardHeight 0

theorem shardRoot_eq : shardRoot =
    node mix (padded (fill 32 2) (shardHashes .orchard)) orchardShardHeight 0 := by
  unfold shardRoot
  rfl

def shardRoots : Pool → List Proto.SubtreeRoot
  | .orchard => [⟨shardRoot.1, 2⟩]
  | .ironwood => []

def mixServer : Server := chainServer shardChain shardServer 2 shardRoots

theorem poolLeaves_shardChain (pool : Pool) :
    poolLeaves pool shardChain.blocks = .ok (shardHashes pool) := by
  cases pool with
  | orchard => exact poolLeaves_pairChain 65535 1
  | ironwood => rfl

theorem mixServer_authentic :
    Authentic (mixTrees_lawful shardChain shardHashes) mixServer shardChain 2 shardHashes := by
  refine chainServer_authentic shardServer (mixTrees_lawful shardChain shardHashes) rfl
    shardChain_fits (by decide) (fun pool ↦ ⟨shardHashes pool, poolLeaves_shardChain pool,
      List.forall₂_same.mpr fun _ _ ↦ rfl⟩) fun pool ↦ ?_
  cases pool with
  | orchard =>
      have hget : ∀ s root, (shardRoots .orchard)[s]? = some root →
          s = 0 ∧ root = ⟨shardRoot.1, 2⟩ := by
        intro s root hroot
        simpa [shardRoots, List.getElem?_singleton, eq_comm] using hroot
      refine ⟨⟨?_, ?_, ?_⟩, ?_⟩
      · rw [size_shardChain.2.1]
        rfl
      · intro s root hroot
        obtain ⟨rfl, rfl⟩ := hget s root hroot
        exact shardChain_completes
      · intro root hroot
        obtain rfl := List.mem_singleton.mp hroot
        exact shardRoot.2
      · intro s root hroot
        obtain ⟨rfl, rfl⟩ := hget s root hroot
        exact ⟨shardRoot, dif_pos shardRoot.2, congrArg some shardRoot_eq⟩
  | ironwood =>
      refine ⟨⟨?_, by simp [shardRoots], by simp [shardRoots]⟩, by simp [shardRoots]⟩
      rw [size_shardChain.2.2]
      rfl

theorem getElem?_pairLeaves {k m i : Nat} (h : i < k) :
    (pairLeaves k m)[i]? = some (fill 32 3) := by
  rw [pairLeaves, List.flatten_cons, List.getElem?_append_left (by rwa [List.length_replicate]),
    List.getElem?_replicate, if_pos h]

/-- The last note of block 1, under the anchor at block 1. -/
def mixRequest : WitnessRequest := ⟨none, some 1, [⟨65534, fill 32 3⟩]⟩

theorem mixRequest_anchor :
    resolveAnchor mixServer mixRequest.anchorHeight mixRequest.anchorDepthBlocks = .ok 1 := rfl

theorem mixRequest_leaves : ∀ n ∈ mixRequest.notes, n.position < shardChain.size .orchard 1 ∧
    (mixTrees shardChain shardHashes).fromBytes n.cmx = (shardHashes .orchard)[n.position]? := by
  intro n hn
  obtain rfl := List.mem_singleton.mp hn
  rw [size_shardChain.1]
  exact ⟨by decide, (getElem?_pairLeaves (by decide)).symm⟩

theorem computeWitnesses_authentic_shard : ∃ root witnesses,
    fetchAnchorForPool (mixTrees shardChain shardHashes) mixServer .orchard none (some 1) =
      .ok ⟨root, 1, []⟩ ∧
    computeWitnessesForPool (mixTrees shardChain shardHashes) mixServer .orchard mixRequest =
      .ok ⟨root, 1, witnesses⟩ ∧ witnesses.length = 1 := by
  obtain ⟨root, -, hfetch, hwitness⟩ := computeWitnesses_authentic mixServer_authentic
    shardChain_fits rfl mixRequest_anchor Nat.one_pos (by decide) (by decide) mixRequest_leaves
  rcases hwitness with ⟨witnesses, hok, hall⟩ | ⟨-, start, stop, hle, hwide, -⟩
  · exact ⟨root, witnesses, hfetch, hok, hall.length_eq.symm⟩
  · rw [maxFirstLeafScanBlocks] at hwide
    omega

theorem computeWitnesses_binding_shard : ∃ out,
    computeWitnessesForPool (mixTrees shardChain shardHashes) mixServer .orchard mixRequest =
      .ok out ∧ List.Forall₂ (TiesNote (S := mixTrees shardChain shardHashes) mix (fill 32 2)
        (shardHashes .orchard) (shardChain.size .orchard 1)) mixRequest.notes out.witnesses := by
  rcases computeWitnesses_of_leaves mixServer_authentic shardChain_fits rfl mixRequest_anchor
    Nat.one_pos (by decide) (by decide) mixRequest_leaves with
    ⟨witnesses, hok, -⟩ | ⟨-, start, stop, hle, hwide, -⟩
  · exact ⟨_, hok, computeWitnesses_binding (mixTrees_lawful shardChain shardHashes) hok rfl⟩
  · rw [maxFirstLeafScanBlocks] at hwide
    omega

theorem shardRoots_served :
    getSubtreeRootsForProtocol mixServer .orchard 0 = .ok [⟨shardRoot.1, 2⟩] := rfl

theorem computeShardRoot_authentic_shard : ∃ bytes, Arr.tryFrom 32 shardRoot.1 = some bytes ∧
    computeShardRoot (mixTrees shardChain shardHashes) mix
      (shardSlice (shardHashes .orchard) 0 ((0 + 1) * shardSize)).cmxs = some (.ok bytes) :=
  computeShardRoot_authentic mixServer_authentic (poolLeaves_shardChain .orchard)
    shardRoots_served (show [(⟨shardRoot.1, 2⟩ : Proto.SubtreeRoot)][0]? = some _ from rfl)

end Sample

end LedgerZcash
