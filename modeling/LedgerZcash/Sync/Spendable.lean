import LedgerZcash.Sync.Authentic
import LedgerZcash.Sync.Partition
import LedgerZcash.Sync.Positions

/-!
# From a scan to a spend

A note that a scan emits is handed back as texts: the hex of its fields, and its position.
On the chain that was scanned the texts are enough.  Each one decodes to the field it was
written from, the position is that of the commitment, and the orchestrator finds the
path of the decrypted note under any anchor from its block on (`emitted_notes_spendable`).
-/

namespace LedgerZcash

open Hex Collect Segments Merkle

/-- A spend that repeats a reported note, text for text. -/
structure SpendInputDto.Repeats (dto : SpendInputDto) (n : ShieldedNote) : Prop where
  position : n.position = some dto.position
  cmx : n.cmx = some dto.cmxHex
  recipient : n.recipient = some dto.recipientHex
  rho : n.rho = some dto.rhoHex
  rseed : n.rseed = some dto.rseedHex
  value : n.amount = dto.valueZat

instance (dto : SpendInputDto) (n : ShieldedNote) : Decidable (dto.Repeats n) :=
  decidable_of_iff (n.position = some dto.position ∧ n.cmx = some dto.cmxHex ∧
      n.recipient = some dto.recipientHex ∧ n.rho = some dto.rhoHex ∧
      n.rseed = some dto.rseedHex ∧ n.amount = dto.valueZat)
    ⟨fun h ↦ ⟨h.1, h.2.1, h.2.2.1, h.2.2.2.1, h.2.2.2.2.1, h.2.2.2.2.2⟩,
      fun h ↦ ⟨h.1, h.2, h.3, h.4, h.5, h.6⟩⟩

/-- The spend has the fields of the note. -/
structure SpendInput.Of {Path : Type} (spend : SpendInput Path) (note : OrchardNote) : Prop where
  recipient : spend.recipient = note.recipient
  value : spend.value = note.value
  rho : spend.rho = note.rho
  rseed : spend.rseed = note.rseed

theorem hexToArray_encode {n : Nat} (a : Arr n) (field : String) :
    hexToArray n (Hex.encode a.1) field = .ok a := by
  have htry : Arr.tryFrom n a.1 = some a := dif_pos a.2
  rw [hexToArray, orFail_eq_ok.mpr (decode_encode a.1), ok_bind, htry]
  rfl

/-- What a spend that repeats a note decodes to. -/
structure SpendInputDto.DecodesTo (dto : SpendInputDto) (note : OrchardNote) : Prop where
  noteRef : noteRef dto = .ok ⟨dto.position, note.cmx⟩
  spendInput : ∀ {Path : Type} (mp : Path),
    spendInput dto mp = .ok ⟨note.recipient, note.value, note.rho, note.rseed, mp⟩

section Reported

variable {U : NoteCrypto} {v : View U} {c : Chain} {srv : Server} {pool : Pool}
  {dto : SpendInputDto}

/-- A repeated note was paid to the account, and its texts decode to the decrypted note. -/
theorem SpendInputDto.Repeats.decodesTo {A : Set Bytes32} {size : Option Nat} {start : Nat}
    {f : UpstreamOrchardOutput} {ufvk : U.Ufvk}
    (h : dto.Repeats (familyNote A size start (mapOrchardFamilyOutput U f ufvk))) :
    f.transferType ≠ .outgoing ∧ dto.DecodesTo f.note := by
  have hin : f.transferType ≠ .outgoing := by
    intro hout
    have hcmx := h.cmx
    simp [familyNote, orchardFamilyNote, mapOrchardFamilyOutput, hout] at hcmx
  have hcmx : Hex.encode f.note.cmx.1 = dto.cmxHex := by
    simpa [familyNote, orchardFamilyNote, mapOrchardFamilyOutput, hin] using h.cmx
  have hrecipient : Hex.encode f.note.recipient.1 = dto.recipientHex := by
    simpa [familyNote, orchardFamilyNote, mapOrchardFamilyOutput] using h.recipient
  have hrho : Hex.encode f.note.rho.1 = dto.rhoHex := by
    simpa [familyNote, orchardFamilyNote, mapOrchardFamilyOutput, hin] using h.rho
  have hrseed : Hex.encode f.note.rseed.1 = dto.rseedHex := by
    simpa [familyNote, orchardFamilyNote, mapOrchardFamilyOutput, hin] using h.rseed
  have hvalue : f.note.value = dto.valueZat := h.value
  refine ⟨hin, ⟨?_, fun mp ↦ ?_⟩⟩
  · rw [noteRef, ← hcmx, hexToArray_encode, ok_bind]
    rfl
  · rw [spendInput, ← hrecipient, hexToArray_encode, ok_bind, ← hrho, hexToArray_encode, ok_bind,
      ← hrseed, hexToArray_encode, ok_bind, ← hvalue]
    rfl

/-- The notes of a report, output by output. -/
theorem Located.notes_report {l : Located} {x : List UInt8 × DecryptedTx} {S : Pool → Set Bytes32}
    {outs : List UpstreamOrchardOutput}
    (houts : pool.outputs x.2 = outs.map (mapOrchardFamilyOutput U · v.ufvk)) :
    ∃ size start, (l.report v S x).notes pool = outs.map fun f ↦
      familyNote (S pool) size start (mapOrchardFamilyOutput U f v.ufvk) := by
  have hnotes : ∃ size start, (l.report v S x).notes pool =
      (pool.outputs x.2).map (familyNote (S pool) size start) := by
    cases pool with
    | orchard => exact ⟨_, _, rfl⟩
    | ironwood => exact ⟨_, _, rfl⟩
  obtain ⟨size, start, hnotes⟩ := hnotes
  exact ⟨size, start, by rw [hnotes, houts, List.map_map]; rfl⟩

/-- The blocks up to one of the chain are among those up to its height. -/
theorem Chain.length_le_size {pre post : List Proto.CompactBlock} {b : Proto.CompactBlock}
    (h : c.blocks = pre ++ b :: post) {height : Nat} (hle : b.height ≤ height) :
    (poolActions pool (pre ++ [b])).length ≤ c.size pool height := by
  have hsub : (pre ++ [b]).Sublist (c.slice 0 height) := by
    have hfilter : (pre ++ [b]).filter (fun x ↦ 0 ≤ x.height ∧ x.height ≤ height) = pre ++ [b] := by
      refine List.filter_eq_self.mpr fun x hx ↦ ?_
      have hxb : x.height ≤ b.height := by
        rcases List.mem_append.mp hx with hpre | hb
        · have hpair := List.pairwise_append.mp (h ▸ c.ascending)
          exact (hpair.2.2 x hpre b List.mem_cons_self).le
        · rw [List.mem_singleton.mp hb]
      simp only [Nat.zero_le, true_and, decide_eq_true_eq]
      exact hxb.trans hle
    rw [← hfilter, Chain.slice, h]
    exact List.Sublist.filter _ (List.Sublist.append_left (List.singleton_sublist.mpr
      List.mem_cons_self) pre)
  exact ((Chain.located_sublist hsub).flatMap _).length_le

/-- Output `i` of a pool that upstream decrypts, under the viewing key, from what the server
returns for the chain's transaction of that txid. -/
def DecryptedAt (srv : Server) (v : View U) (c : Chain) (pool : Pool) (txid : String) (i : Nat)
    (f : UpstreamOrchardOutput) : Prop :=
  ∃ l ∈ located c.blocks, l.txid = txid ∧ ∃ raw tx,
    srv.getTransaction l.height l.tx.txid = .ok raw ∧
    U.readTransaction v.network l.height raw = .ok tx ∧
    (pool.upstreamOutputs (U.decryptTransaction v.network l.height tx v.ufvk))[i]? = some f

/-- On a server that answers like another one, upstream decrypts the same. -/
theorem DecryptedAt.follows {base : Server} {txid : String} {i : Nat} {f : UpstreamOrchardOutput}
    (h : DecryptedAt srv v c pool txid i f) (hf : srv.Follows base) :
    DecryptedAt base v c pool txid i f := by
  obtain ⟨l, hl, htxid, raw, tx, hraw, htx, hat⟩ := h
  exact ⟨l, hl, htxid, raw, tx, hf.getTransaction _ _ _ hraw, htx, hat⟩

/-- A repeated note of a report is the upstream output of its index: the output's commitment is a
leaf of its block, and the texts decode to its note. -/
theorem exists_output_of_repeats {blocks : List Proto.CompactBlock} {leaves : Pool → List Bytes32}
    (hm : c.Metered) (hi : IndexedByAction srv v blocks)
    (hleaves : ∀ pool, poolLeaves pool c.blocks = .ok (leaves pool)) {l : Located}
    (hl : l ∈ located blocks) (hc : l ∈ located c.blocks) {x : List UInt8 × DecryptedTx}
    (hx : l.opened srv v = some x) {S : Pool → Set Bytes32} {i : Nat} {n : ShieldedNote}
    (hn : ((l.report v S x).notes pool)[i]? = some n) (hd : dto.Repeats n) :
    ∃ f, DecryptedAt srv v c pool l.txid i f ∧ f.transferType ≠ .outgoing ∧
      dto.DecodesTo f.note ∧ (leaves pool)[dto.position]? = some f.note.cmx ∧
      ∀ height, l.block.height ≤ height → dto.position < c.size pool height := by
  obtain ⟨j, tx, hat⟩ := exists_atLeaves hm hi hleaves hl hc hx S
  obtain ⟨tx', htx', houts⟩ := Located.exists_decrypted hx
  obtain ⟨raw, hraw, htx⟩ := hat.read
  obtain ⟨hopened, -⟩ := Located.opened_eq_some.mp hx
  obtain rfl : x.1 = raw := Except.ok.inj (hopened.symm.trans hraw)
  obtain rfl : tx' = tx := Except.ok.inj (htx'.symm.trans htx)
  obtain ⟨size, start, hnotes⟩ := l.notes_report (S := S) (houts pool)
  have hpositions := hat.positions pool
  rw [hnotes, List.map_map, List.map_inj_left] at hpositions
  have hmem := List.mem_of_getElem? hn
  rw [hnotes, List.getElem?_map] at hn
  obtain ⟨f, hf, rfl⟩ := Option.map_eq_some_iff.mp hn
  have hfmem := List.mem_of_getElem? hf
  obtain ⟨hin, hdecodes⟩ := hd.decodesTo
  obtain ⟨-, hleaf⟩ := hat.leaf pool f hfmem
  have hposition : offset (c.segments pool) j + f.index = dto.position := by
    have hpos := (hpositions f hfmem).symm.trans hd.position
    rw [leafPosition, if_neg hin] at hpos
    exact Option.some.inj hpos
  refine ⟨f, ⟨l, hc, rfl, x.1, tx', hraw, htx, hf⟩, hin, hdecodes, hposition ▸ hleaf,
    fun height hle ↦ ?_⟩
  obtain ⟨pre, post, hblocks, hbounds⟩ := hat.mem_block
  have hreported : dto.position ∈ (l.report v S x).positions pool :=
    List.mem_filterMap.mpr ⟨_, hmem, hd.position⟩
  exact lt_of_lt_of_le (hbounds pool _ hreported).2 (Chain.length_le_size hblocks hle)

end Reported

/-- On servers that answer like another one, and in some of the blocks. -/
theorem IndexedByAction.follows {U : NoteCrypto} {v : View U} {srv base : Server}
    {blocks blocks' : List Proto.CompactBlock} (h : IndexedByAction base v blocks)
    (hf : srv.Follows base) (hsub : ∀ l ∈ located blocks', l ∈ located blocks) :
    IndexedByAction srv v blocks' := by
  intro l hl raw hraw
  refine h l (hsub l hl) raw ?_
  exact toOption_eq_some.mpr (hf.getTransaction _ _ _ (toOption_eq_some.mp hraw))

section Spends

variable {S : ShardTrees} {combine : Nat → S.Hash → S.Hash → S.Hash} {emptyLeaf : S.Hash}
  {law : S.Lawful combine emptyLeaf} {srv : Server} {c : Chain} {tip anchor : Nat} {pool : Pool}
  {hashes : Pool → List S.Hash} {dtos : List SpendInputDto}

/-- A spend of a request: the note that the texts decode to, with the path of its position. -/
structure IsSpend (combine : Nat → S.Hash → S.Hash → S.Hash) (emptyLeaf : S.Hash)
    (hashes : List S.Hash) (n : Nat) (dto : SpendInputDto) (spend : SpendInput S.Path) : Prop where
  note : ∀ note, dto.DecodesTo note → spend.Of note
  path : IsAnchorPath combine emptyLeaf hashes n dto.position spend.merklePath

/-- A spend of a decrypted note: its fields, and the path of its commitment in the tree over the
first `n` leaves. -/
structure Spends (combine : Nat → S.Hash → S.Hash → S.Hash) (emptyLeaf : S.Hash)
    (hashes : List S.Hash) (n : Nat) (note : OrchardNote) (spend : SpendInput S.Path) : Prop where
  fields : spend.Of note
  path : ∃ p < n, S.fromBytes note.cmx = hashes[p]? ∧
    IsAnchorPath combine emptyLeaf hashes n p spend.merklePath

/-- Notes that are leaves of the chain reach the builder with their paths. -/
theorem witnessSpends_of_leaves (ha : Authentic law srv c tip hashes) (hf : c.Fits tip)
    (hconn : srv.connect = .ok ()) (hpos : 0 < anchor) (hle : anchor ≤ tip) (hne : dtos ≠ [])
    (hnotes : ∀ dto ∈ dtos, ∃ note, dto.DecodesTo note ∧ dto.position < c.size pool anchor ∧
      S.fromBytes note.cmx = (hashes pool)[dto.position]?) :
    (∃ spends, witnessSpends S srv pool anchor dtos =
        .ok (S.toBytes (anchorRoot combine emptyLeaf (hashes pool) (c.size pool anchor)), spends) ∧
      List.Forall₂ (IsSpend combine emptyLeaf (hashes pool) (c.size pool anchor)) dtos spends) ∨
    ∃ start stop, stop ≤ tip ∧ maxFirstLeafScanBlocks < stop - start ∧
      witnessSpends S srv pool anchor dtos = .error (widthError pool start stop) := by
  obtain ⟨refs, hrefs, hall⟩ := exists_mapM_forall₂ (f := noteRef)
    (P := fun dto ref ↦ ref.position = dto.position ∧ ref.position < c.size pool anchor ∧
      S.fromBytes ref.cmx = (hashes pool)[ref.position]?) fun dto hdto ↦ by
      obtain ⟨note, hdecodes, hlt, hcmx⟩ := hnotes dto hdto
      exact ⟨_, hdecodes.noteRef, rfl, hlt, hcmx⟩
  have hrefne : refs ≠ [] := by
    rintro rfl
    exact hne (List.length_eq_zero_iff.mp hall.length_eq)
  have hleaf : ∀ ref ∈ refs, ref.position < c.size pool anchor ∧
      S.fromBytes ref.cmx = (hashes pool)[ref.position]? := by
    intro ref href
    obtain ⟨dto, -, -, h⟩ := exists_of_forall₂_right hall href
    exact h
  rw [witnessSpends, hrefs, ok_bind]
  rcases computeWitnesses_of_leaves ha hf hconn
    (show resolveAnchor srv (some anchor) none = .ok anchor from rfl) hpos hle
    (show (WitnessRequest.mk (some anchor) none refs).notes ≠ [] from hrefne) hleaf with
    ⟨witnesses, hok, hpaths⟩ | ⟨-, start, stop, hstop, hwide, herr⟩
  · have hpositions : dtos.map SpendInputDto.position = refs.map NoteRef.position := by
      rw [map_eq_map_of_mapM hrefs fun dto _ ref href ↦ (noteRef_eq_ok href).2]
    have hjoin : List.Forall₂ (fun (dto : SpendInputDto) path ↦ IsAnchorPath combine emptyLeaf
        (hashes pool) (c.size pool anchor) dto.position path) dtos witnesses := by
      rw [← List.forall₂_map_left_iff (R := fun p path ↦ IsAnchorPath combine emptyLeaf
        (hashes pool) (c.size pool anchor) p path), hpositions, List.forall₂_map_left_iff]
      exact hpaths
    have hlen : ¬ witnesses.length ≠ dtos.length := not_not.mpr hjoin.length_eq.symm
    obtain ⟨spends, hspends, hspendsOf⟩ := exists_mapM_forall₂
      (l := dtos.zip witnesses) (f := fun x ↦ spendInput x.1 x.2)
      (P := fun x spend ↦ spendInput x.1 x.2 = .ok spend ∧ spend.merklePath = x.2)
      fun x hx ↦ by
        obtain ⟨note, hdecodes, -, -⟩ := hnotes x.1 (List.of_mem_zip hx).1
        exact ⟨_, hdecodes.spendInput x.2, hdecodes.spendInput x.2, rfl⟩
    refine .inl ⟨spends, ?_, (forall₂_of_zip hjoin hspendsOf).imp ?_⟩
    · rw [hok, ok_bind, (refuseIf_eq_ok (u := ())).mpr hlen, ok_bind]
      exact bind_eq_ok.mpr ⟨spends, hspends, rfl⟩
    · rintro dto spend ⟨path, hpath, hspend, rfl⟩
      refine ⟨fun note hdecodes ↦ ?_, hpath⟩
      rw [← Except.ok.inj ((hdecodes.spendInput _).symm.trans hspend)]
      exact ⟨rfl, rfl, rfl, rfl⟩
  · refine .inr ⟨start, stop, hstop, hwide, ?_⟩
    rw [herr]
    rfl

/-- A note that a scan of the chain reported, repeated text for text, is the decrypted output of
its index, and a leaf of the chain under every anchor from its block on. -/
theorem exists_leaf_of_reported {U : NoteCrypto} {rt : Runtime} {p : SyncParams} {v : View U}
    {out : ScanOutput} {scanned : Server} {dto : SpendInputDto} {t : ShieldedTransaction} {i : Nat}
    {n : ShieldedNote} (ha : Authentic law srv c tip hashes) (hm : c.Metered)
    (hv : p.view U = .ok v)
    (hb : scanned.getBlockRange p.startHeight.toNat p.endHeight.toNat =
      .ok ((c.slice p.startHeight.toNat p.endHeight.toNat).map .ok))
    (hi : IndexedByAction scanned v (c.slice p.startHeight.toNat p.endHeight.toNat))
    (h : runSyncInner U rt scanned p = .ok out) (ht : t ∈ out.result.transactions)
    (hheight : t.blockHeight ≤ anchor) (hn : (t.notes pool)[i]? = some n)
    (hrepeats : dto.Repeats n) :
    ∃ f, DecryptedAt scanned v c pool t.txid i f ∧ f.transferType ≠ .outgoing ∧
      dto.DecodesTo f.note ∧ dto.position < c.size pool anchor ∧
      S.fromBytes f.note.cmx = (hashes pool)[dto.position]? := by
  choose leaves hleaves hhashes using ha.leaves
  obtain ⟨l, ⟨hl, -, -⟩, x, hx, rfl⟩ := (outcome_of_runSyncInner hv hb h).sound t ht
  have hc : l ∈ located c.blocks := (Chain.located_sublist List.filter_sublist).subset hl
  obtain ⟨f, hat, hin, hdecodes, hleaf, hlt⟩ :=
    exists_output_of_repeats hm hi hleaves hl hc hx hn hrepeats
  have hblock : l.block.height ≤ anchor := by
    have hreport : asU32 l.block.height ≤ anchor := (height_blockResult v l.block) ▸ hheight
    rwa [asU32_of_lt (c.bounded _ (mem_located.mp hc).1)] at hreport
  obtain ⟨hash, hhash, hbytes⟩ := exists_getElem?_of_forall₂ (hhashes pool) hleaf
  exact ⟨f, hat, hin, hdecodes, hlt anchor hblock, hbytes.trans hhash.symm⟩

variable {U : NoteCrypto} {rts : Nat → Runtime} {srvs : Nat → Server} {p : SyncParams} {v : View U}
  {base : Server}

/-- The same for a note of a whole run with its retries, on servers that answer like the chain's
or fail. -/
theorem exists_leaf_of_emitted (ha : Authentic law srv c tip hashes) (hs : c.Serves base)
    (hfollows : ∀ m, (srvs m).Follows base) (hm : c.Metered) (hv : p.view U = .ok v)
    (hi : IndexedByAction base v c.blocks) {dto : SpendInputDto} {t : ShieldedTransaction} {i : Nat}
    {n : ShieldedNote} (ht : t ∈ runEmissions U rts srvs p) (hheight : t.blockHeight ≤ anchor)
    (hn : (t.notes pool)[i]? = some n) (hrepeats : dto.Repeats n) :
    ∃ f, DecryptedAt base v c pool t.txid i f ∧ f.transferType ≠ .outgoing ∧
      dto.DecodesTo f.note ∧ dto.position < c.size pool anchor ∧
      S.fromBytes f.note.cmx = (hashes pool)[dto.position]? := by
  obtain ⟨⟨attempt, m⟩, -, ht⟩ := List.mem_flatMap.mp ht
  rw [emissions_eq] at ht
  split at ht
  · rename_i out hout
    obtain ⟨-, blocks, -, -, hblocks, -⟩ := runSyncInner_eq_ok hout
    obtain rfl : c.slice attempt.start.toNat attempt.stop.toNat = blocks :=
      List.map_injective_iff.mpr (fun _ _ ↦ Except.ok.inj)
        (Except.ok.inj ((hs _ _).symm.trans ((hfollows m).getBlockRange _ _ _ hblocks)))
    obtain ⟨f, hat, hfacts⟩ := exists_leaf_of_reported ha hm
      (p := p.sub attempt.start attempt.stop) hv hblocks (hi.follows (hfollows m) fun l hl ↦
        (Chain.located_sublist List.filter_sublist).subset hl) hout ht hheight hn hrepeats
    exact ⟨f, hat.follows (hfollows m), hfacts⟩
  · cases ht

/-- What a run emitted, repeated text for text, becomes the spends of a transaction under any
anchor from the notes' blocks on: whichever note a spend repeats, it spends the decrypted output of
the note's transaction and index.  Only an implausibly wide scan for shard 0 is refused. -/
theorem emitted_notes_spendable (ha : Authentic law srv c tip hashes)
    (hf : c.Fits tip) (hs : c.Serves base) (hfollows : ∀ m, (srvs m).Follows base)
    (hm : c.Metered) (hv : p.view U = .ok v) (hi : IndexedByAction base v c.blocks)
    (hconn : srv.connect = .ok ()) (hpos : 0 < anchor) (hle : anchor ≤ tip) (hne : dtos ≠ [])
    (hd : ∀ dto ∈ dtos, ∃ t ∈ runEmissions U rts srvs p, t.blockHeight ≤ anchor ∧
      ∃ n ∈ t.notes pool, dto.Repeats n) :
    (∃ spends, witnessSpends S srv pool anchor dtos =
        .ok (S.toBytes (anchorRoot combine emptyLeaf (hashes pool) (c.size pool anchor)), spends) ∧
      List.Forall₂ (fun dto spend ↦ ∀ t ∈ runEmissions U rts srvs p, t.blockHeight ≤ anchor →
        ∀ i n, (t.notes pool)[i]? = some n → dto.Repeats n →
          ∃ f, DecryptedAt base v c pool t.txid i f ∧ f.transferType ≠ .outgoing ∧
            Spends combine emptyLeaf (hashes pool) (c.size pool anchor) f.note spend)
        dtos spends) ∨
    ∃ start stop, stop ≤ tip ∧ maxFirstLeafScanBlocks < stop - start ∧
      witnessSpends S srv pool anchor dtos = .error (widthError pool start stop) := by
  have hleaf : ∀ dto ∈ dtos, ∃ note, dto.DecodesTo note ∧ dto.position < c.size pool anchor ∧
      S.fromBytes note.cmx = (hashes pool)[dto.position]? := by
    intro dto hdto
    obtain ⟨t, ht, hheight, n, hn, hrepeats⟩ := hd dto hdto
    obtain ⟨i, hi'⟩ := List.mem_iff_getElem?.mp hn
    obtain ⟨f, -, -, hfacts⟩ :=
      exists_leaf_of_emitted ha hs hfollows hm hv hi ht hheight hi' hrepeats
    exact ⟨f.note, hfacts⟩
  refine (witnessSpends_of_leaves ha hf hconn hpos hle hne hleaf).imp_left ?_
  rintro ⟨spends, hok, hall⟩
  refine ⟨spends, hok, hall.imp fun dto spend hspend t ht hheight i n hn hrepeats ↦ ?_⟩
  obtain ⟨f, hat, hin, hdecodes, hlt, hcmx⟩ :=
    exists_leaf_of_emitted ha hs hfollows hm hv hi ht hheight hn hrepeats
  exact ⟨f, hat, hin, hspend.note _ hdecodes, dto.position, hlt, hcmx, hspend.path⟩

end Spends

/-! ## The note of the small chain -/

section Sample

def sampleDto : SpendInputDto where
  recipientHex := Hex.encode (List.replicate 43 7)
  valueZat := 5
  rhoHex := Hex.encode (List.replicate 32 7)
  rseedHex := Hex.encode (List.replicate 32 7)
  cmxHex := Hex.encode (List.replicate 32 7)
  position := 0

theorem sampleChain_fits : sampleChain.Fits 2 where
  tip_lt := by decide
  genesis := by decide +kernel
  capacity := by decide +kernel

def treeServer : Server := chainServer sampleChain sampleServer 2 fun _ ↦ []

theorem treeServer_authentic :
    Authentic (mixTrees_lawful sampleChain sampleLeaves) treeServer sampleChain 2 sampleLeaves := by
  refine chainServer_authentic sampleServer (mixTrees_lawful sampleChain sampleLeaves) rfl
    sampleChain_fits (by decide) (fun pool ↦ ⟨sampleLeaves pool, ?_,
      List.forall₂_same.mpr fun _ _ ↦ rfl⟩) fun pool ↦ ⟨⟨?_, by simp, by simp⟩, by simp⟩
  · revert pool
    decide +kernel
  · revert pool
    decide +kernel

/-- The retried scan of the small chain emits the note that the spend repeats. -/
theorem sample_repeats : ∃ t ∈ runEmissions sampleCrypto (fun _ ↦ sampleRuntime) flakyServers
    retryParams, t.blockHeight ≤ 1 ∧ ∃ n ∈ t.notes .orchard, sampleDto.Repeats n := by
  decide +kernel

end Sample

end LedgerZcash
