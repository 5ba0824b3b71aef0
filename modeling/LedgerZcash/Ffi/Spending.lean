import LedgerZcash.Ffi.Build
import LedgerZcash.Ffi.HandOver
import LedgerZcash.Sync.Spendable

/-!
# From a delivered note to a spend

A wallet keeps the notes that `next()` returned, and writes them into a build request: the texts
as they are, the amount as a decimal.  So a note crosses to JavaScript and back between the scan
and the build.  Nothing of it is lost on the way: whatever the interleaving of the scan with the
calls, the request is read, and each of its spends is the note that upstream decrypted, with the
Merkle path of its commitment (`delivered_notes_spendable`).
-/

namespace LedgerZcash

open Hex Collect Decimal Merkle

/-- The notes of a pool. -/
def Napi.ShieldedTransaction.notes (tx : Napi.ShieldedTransaction) : Pool → List Napi.ShieldedNote
  | .orchard => tx.orchardNotes
  | .ironwood => tx.ironwoodNotes

/-- A spend that a caller writes from a delivered note: text for text, the amount as a decimal. -/
structure Napi.SpendInput.Repeats (s : Napi.SpendInput) (n : Napi.ShieldedNote) : Prop where
  position : n.position = some s.position
  cmx : n.cmx = some s.cmx
  recipient : n.recipient = some s.recipient
  rho : n.rho = some s.rho
  rseed : n.rseed = some s.rseed
  value : parseUnsigned u64Size s.valueZat.toList = some n.amount.toUInt64.toNat

theorem notes_grpcTxToNapi (tx : ShieldedTransaction) (pool : Pool) :
    (grpcTxToNapi tx).notes pool = (tx.notes pool).map orchardNoteToNapi := by
  cases pool <;> rfl

/-- What is delivered was emitted. -/
theorem exists_emitted {events : List StreamEvent} {s : TransactionStream}
    (h : StreamRun startSync events s) {t : Napi.ShieldedTransaction} (ht : t ∈ delivered events) :
    ∃ tx ∈ emitted events, grpcTxToNapi tx = t :=
  List.mem_map.mp ((StreamGuarantees.of_run h).isPrefix.subset ht)

/-- A written spend is read as the note that was scanned. -/
theorem exists_spendInputDto_repeats {s : Napi.SpendInput} {n : ShieldedNote} (hn : n.InRange)
    (h : s.Repeats (orchardNoteToNapi n)) :
    ∃ dto, spendInputDto s = .ok dto ∧ dto.Repeats n := by
  obtain ⟨i, hi, hposition⟩ := Option.map_eq_some_iff.mp h.position
  have hread : parseU64 s.position "position" = .ok i := by
    rw [← hposition]
    exact parseU64_repr (hn.position i hi) _
  have hvalue : parseU64 s.valueZat "value_zat" = .ok n.amount := by
    rw [parseU64_eq_ok, h.value]
    exact congrArg some (toUInt64_asF64 hn.amount)
  refine ⟨⟨s.recipient, n.amount, s.rho, s.rseed, s.cmx, i⟩, ?_,
    ⟨hi, h.cmx, h.recipient, h.rho, h.rseed, rfl⟩⟩
  rw [spendInputDto, hvalue, ok_bind, hread]
  rfl

section Spending

variable {S : ShardTrees} {combine : Nat → S.Hash → S.Hash → S.Hash} {emptyLeaf : S.Hash}
  {law : S.Lawful combine emptyLeaf} {srv base : Server} {c : Chain} {tip anchor : Nat}
  {pool : Pool} {hashes : Pool → List S.Hash} {U : NoteCrypto} {v : View U}
  {rts : Nat → Runtime} {srvs : Nat → Server} {p : SyncParams} {events : List StreamEvent}
  {s : TransactionStream} {spends : List Napi.SpendInput}

/-- A delivered note that a spend repeats was emitted, and the spend is read as the emitted one. -/
theorem exists_emitted_note (h : StreamRun startSync events s)
    (hsync : RunsSync U rts srvs p events)
    (hrange : ∀ tx ∈ runEmissions U rts srvs p, tx.InRange) {t : Napi.ShieldedTransaction} {i : Nat}
    {n : Napi.ShieldedNote} {x : Napi.SpendInput} (ht : t ∈ delivered events)
    (hn : (t.notes pool)[i]? = some n) (hrepeats : x.Repeats n) :
    ∃ tx ∈ runEmissions U rts srvs p, tx.txid = t.txid ∧ tx.blockHeight = t.blockHeight ∧
      ∃ note dto, (tx.notes pool)[i]? = some note ∧ spendInputDto x = .ok dto ∧
        dto.Repeats note := by
  obtain ⟨tx, htx, rfl⟩ := exists_emitted h ht
  have hemitted := hsync.emits.subset htx
  rw [notes_grpcTxToNapi, List.getElem?_map] at hn
  obtain ⟨note, hnote, rfl⟩ := Option.map_eq_some_iff.mp hn
  obtain ⟨dto, hdto, hdrepeats⟩ := exists_spendInputDto_repeats
    ((hrange tx hemitted).ofPool (List.mem_of_getElem? hnote)) hrepeats
  exact ⟨tx, hemitted, rfl, rfl, note, dto, hnote, hdto, hdrepeats⟩

/-- A request that spends delivered notes of the chain is read, and its spends reach the builder in
the order of the request: whichever delivered note a spend repeats, it spends the output that
upstream decrypted at the note's place in its transaction, with the path of its commitment under
the anchor. -/
theorem delivered_notes_spendable (h : StreamRun startSync events s)
    (hsync : RunsSync U rts srvs p events)
    (hrange : ∀ tx ∈ runEmissions U rts srvs p, tx.InRange)
    (ha : Authentic law srv c tip hashes) (hf : c.Fits tip) (hs : c.Serves base)
    (hfollows : ∀ m, (srvs m).Follows base) (hm : c.Metered) (hv : p.view U = .ok v)
    (hi : IndexedByAction base v c.blocks) (hconn : srv.connect = .ok ()) (hpos : 0 < anchor)
    (hle : anchor ≤ tip) (hne : spends ≠ [])
    (hd : ∀ x ∈ spends, ∃ t ∈ delivered events, t.blockHeight ≤ anchor ∧
      ∃ n ∈ t.notes pool, x.Repeats n) :
    ∃ dtos, spends.mapM spendInputDto = .ok dtos ∧
      ((∃ inputs, witnessSpends S srv pool anchor dtos =
          .ok (S.toBytes (anchorRoot combine emptyLeaf (hashes pool) (c.size pool anchor)),
            inputs) ∧
        List.Forall₂ (fun x input ↦ ∀ t ∈ delivered events, t.blockHeight ≤ anchor →
          ∀ i n, (t.notes pool)[i]? = some n → x.Repeats n →
            ∃ f, DecryptedAt base v c pool t.txid i f ∧ f.transferType ≠ .outgoing ∧
              Spends combine emptyLeaf (hashes pool) (c.size pool anchor) f.note input)
          spends inputs) ∨
      ∃ start stop, stop ≤ tip ∧ maxFirstLeafScanBlocks < stop - start ∧
        witnessSpends S srv pool anchor dtos = .error (widthError pool start stop)) := by
  obtain ⟨dtos, hdtos, hall⟩ := exists_mapM_forall₂ (f := spendInputDto)
    (P := fun x dto ↦ spendInputDto x = .ok dto ∧ ∃ t ∈ runEmissions U rts srvs p,
      t.blockHeight ≤ anchor ∧ ∃ n ∈ t.notes pool, dto.Repeats n) (l := spends) fun x hx ↦ by
      obtain ⟨t, ht, hheight, n, hn, hrepeats⟩ := hd x hx
      obtain ⟨i, hi'⟩ := List.mem_iff_getElem?.mp hn
      obtain ⟨tx, htx, -, hsame, note, dto, hnote, hdto, hdrepeats⟩ :=
        exists_emitted_note h hsync hrange ht hi' hrepeats
      exact ⟨dto, hdto, hdto, tx, htx, hsame ▸ hheight, note, List.mem_of_getElem? hnote, hdrepeats⟩
  have hdtone : dtos ≠ [] := by
    rintro rfl
    exact hne (List.length_eq_zero_iff.mp hall.length_eq)
  have hemitted : ∀ dto ∈ dtos, ∃ t ∈ runEmissions U rts srvs p, t.blockHeight ≤ anchor ∧
      ∃ n ∈ t.notes pool, dto.Repeats n := by
    intro dto hdto
    obtain ⟨x, -, -, hx⟩ := exists_of_forall₂_right hall hdto
    exact hx
  refine ⟨dtos, hdtos, Or.imp_left ?_
    (emitted_notes_spendable ha hf hs hfollows hm hv hi hconn hpos hle hdtone hemitted)⟩
  rintro ⟨inputs, hok, hinputs⟩
  refine ⟨inputs, hok, (forall₂_comp hall hinputs).imp ?_⟩
  rintro x input ⟨dto, ⟨hdto, -⟩, hspend⟩ t ht hheight i n hn hrepeats
  obtain ⟨tx, htx, htxid, hsame, note, dto', hnote, hdto', hdrepeats⟩ :=
    exists_emitted_note h hsync hrange ht hn hrepeats
  obtain rfl : dto = dto' := Except.ok.inj (hdto.symm.trans hdto')
  exact htxid ▸ hspend tx htx (hsame ▸ hheight) i note hnote hdrepeats

end Spending

/-! ## The note of the small chain -/

def sampleSpend : Napi.SpendInput where
  recipient := Hex.encode (List.replicate 43 7)
  valueZat := "5"
  rho := Hex.encode (List.replicate 32 7)
  rseed := Hex.encode (List.replicate 32 7)
  cmx := Hex.encode (List.replicate 32 7)
  position := "0"

/-- The spend that repeats a note is the one that repeats it after its crossing. -/
theorem repeats_sampleSpend {n : ShieldedNote} (h : sampleDto.Repeats n) :
    sampleSpend.Repeats (orchardNoteToNapi n) := by
  have hamount : n.amount = 5 := h.value
  refine ⟨?_, h.cmx, h.recipient, h.rho, h.rseed, ?_⟩
  · change n.position.map Nat.repr = some "0"
    rw [h.position]
    rfl
  · change _ = some (asF64 n.amount).toUInt64.toNat
    rw [toUInt64_asF64 (by omega), hamount]
    decide +kernel

theorem delivered_notes_spendable_flaky : ∃ dtos txid,
    [sampleSpend].mapM spendInputDto = .ok dtos ∧
      ∃ root inputs, witnessSpends (mixTrees sampleChain sampleLeaves) treeServer .orchard 1 dtos =
          .ok (root, inputs) ∧
        List.Forall₂ (fun (_ : Napi.SpendInput) input ↦
          ∃ i f, DecryptedAt sampleServer sampleView sampleChain .orchard txid i f ∧
            f.transferType ≠ .outgoing ∧ Spends (S := mixTrees sampleChain sampleLeaves) mix
              (fill 32 2) (sampleLeaves .orchard) (sampleChain.size .orchard 1) f.note input)
          [sampleSpend] inputs := by
  obtain ⟨tx, res, events, s, -, hemitted, hrange, hdelivered, hrun, hsync⟩ := exists_run_flaky
  obtain ⟨t, ht, hheight, n, hn, hrepeats⟩ := sample_repeats
  rw [hemitted, List.mem_singleton] at ht
  subst ht
  have ht : grpcTxToNapi t ∈ delivered events := hdelivered ▸ List.mem_singleton_self _
  have hnotes : orchardNoteToNapi n ∈ (grpcTxToNapi t).notes .orchard := by
    rw [notes_grpcTxToNapi]
    exact List.mem_map_of_mem hn
  have hwritten := repeats_sampleSpend hrepeats
  have hranges : ∀ tx ∈ runEmissions sampleCrypto (fun _ ↦ sampleRuntime) flakyServers retryParams,
      tx.InRange := by
    intro tx htx
    rw [hemitted, List.mem_singleton] at htx
    exact htx ▸ hrange
  obtain ⟨dtos, hdtos, hspends⟩ := delivered_notes_spendable hrun hsync hranges
    treeServer_authentic sampleChain_fits sampleChain_serves flakyServers_follows
    sampleChain_metered (sampleParams_view 1 2) (by unfold IndexedByAction; decide +kernel) rfl
    Nat.one_pos one_le_two (List.cons_ne_nil sampleSpend []) fun x hx ↦
      ⟨_, ht, hheight, _, hnotes, List.mem_singleton.mp hx ▸ hwritten⟩
  refine ⟨dtos, t.txid, hdtos, ?_⟩
  obtain ⟨i, hi⟩ := List.mem_iff_getElem?.mp hnotes
  rcases hspends with ⟨inputs, hok, hall⟩ | ⟨start, stop, hstop, hwide, -⟩
  · refine ⟨_, inputs, hok, ?_⟩
    cases hall with
    | cons hhead htail =>
        cases htail
        exact .cons ⟨i, hhead _ ht hheight i _ hi hwritten⟩ .nil
  · rw [maxFirstLeafScanBlocks] at hwide
    omega

end LedgerZcash
