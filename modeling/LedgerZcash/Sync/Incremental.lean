import LedgerZcash.Lib.Bisect
import LedgerZcash.Sync.Chain

/-!
# Incremental scans compose

A wallet scans consecutive ranges one after another.  It passes to each scan the
nullifiers of the notes it holds unspent, adds the transactions the scan returns, and
marks the notes whose nullifier the scan returns as spent.  On a valid chain its store
ends up with what one scan of the whole range reports (`incremental_eq_whole`): after
each piece it holds the reports of the range so far (`Holds`), and a piece extends the
range by `Ledger.Sequential`.
-/

namespace LedgerZcash

open Hex Collect

/-! ## The wallet's side -/

/-- The notes of a record that can be spent. -/
def ShieldedTransaction.spendable (t : ShieldedTransaction) : List ShieldedNote :=
  t.orchardNotes ++ t.ironwoodNotes

/-- The nullifiers of the notes of a store that are not spent. -/
def unspentNullifiers (store : List ShieldedTransaction) : List String :=
  (store.flatMap ShieldedTransaction.spendable).filterMap fun note ↦
    if note.isSpent then none else note.nullifier

/-- Mark a note whose nullifier was returned as spent. -/
def markKnownNote (spent : List String) (note : ShieldedNote) : ShieldedNote :=
  if note.nullifier.any (· ∈ spent) then { note with isSpent := true } else note

def markKnown (spent : List String) (t : ShieldedTransaction) : ShieldedTransaction :=
  { t with
    orchardNotes := t.orchardNotes.map (markKnownNote spent)
    ironwoodNotes := t.ironwoodNotes.map (markKnownNote spent) }

/-- Add the transactions whose txid is not in the store yet. -/
def mergeByTxid (store new : List ShieldedTransaction) : List ShieldedTransaction :=
  store ++ new.filter fun t ↦ t.txid ∉ store.map ShieldedTransaction.txid

/-- Take the result of a scan into a store. -/
def absorb (store : List ShieldedTransaction) (r : SyncResult) : List ShieldedTransaction :=
  (mergeByTxid store r.transactions).map (markKnown r.spentKnownNullifiers)

/-- Scan the ranges in order; the `n`-th scan runs under the `n`-th runtime. -/
def incremental (U : NoteCrypto) (rts : Nat → Runtime) (srv : Server) (p : SyncParams) :
    Nat → List (UInt32 × UInt32) → List ShieldedTransaction →
      Except ScanFailure (List ShieldedTransaction)
  | _, [], store => pure store
  | n, (s, e) :: rest, store => do
      let out ← runSyncInner U (rts n) srv
        { p with startHeight := s, endHeight := e, knownNullifiers := unspentNullifiers store }
      incremental U rts srv p (n + 1) rest (absorb store out.result)

variable {U : NoteCrypto} {srv : Server} {v : View U}

/-! ## Valid chains -/

/-- Each nullifier is revealed at most once, and not before its note is created; no
nullifier value occurs in both pools. -/
structure ValidBlocks (srv : Server) (v : View U) (blocks : List Proto.CompactBlock) : Prop where
  once : (located blocks).Pairwise fun l l' ↦
    ∀ p q, ∀ n ∈ revealedBy p l.tx, n ∉ revealedBy q l'.tx
  created : (located blocks).Pairwise fun l l' ↦
    ∀ p q, ∀ n ∈ revealedBy p l.tx, n ∉ l'.notes srv v q
  onePool : ∀ l ∈ located blocks, ∀ l' ∈ located blocks,
    ∀ n ∈ revealedBy .orchard l.tx ++ l.notes srv v .orchard,
      n ∉ revealedBy .ironwood l'.tx ++ l'.notes srv v .ironwood

theorem ValidBlocks.poolScoped {blocks : List Proto.CompactBlock}
    (h : ValidBlocks srv v blocks) : (v.ledger srv).PoolScoped (range blocks) := by
  rintro l hl p q n hn ⟨l', hl', hn'⟩
  cases p <;> cases q
  · rfl
  · exact absurd (List.mem_append_left _ hn')
      (h.onePool l hl l' hl' n (List.mem_append_right _ hn))
  · exact absurd (List.mem_append_right _ hn)
      (h.onePool l' hl' l hl n (List.mem_append_left _ hn'))
  · rfl

/-- Two parts of a range of a valid chain follow each other when their heights do. -/
theorem ValidBlocks.sequential {c : Chain} {a e : Nat} (h : ValidBlocks srv v (c.slice a e))
    {S T : Set Located} (hS : S ⊆ range (c.slice a e)) (hT : T ⊆ range (c.slice a e))
    (hlt : ∀ l ∈ S, ∀ l' ∈ T, l.block.height < l'.block.height) :
    (v.ledger srv).Sequential S T := by
  have hpair : ∀ {R : Located → Located → Prop}, (located (c.slice a e)).Pairwise R →
      ∀ l ∈ S, ∀ l' ∈ T, R l l' := fun hR l hl l' hl' ↦
    pairwise_of_key_lt (Chain.located_slice_ascending a e) hR (hS hl) (hT hl') (hlt l hl l' hl')
  refine ⟨?_, ?_, h.poolScoped.mono (Set.union_subset hS hT)⟩
  · rintro p q n ⟨l, hl, hn⟩ ⟨l', hl', hn'⟩
    exact hpair h.once l hl l' hl' p q n hn hn'
  · rintro p n ⟨l, hl, hn⟩ ⟨l', hl', -, q, hn'⟩
    exact hpair h.created l hl l' hl' p q n hn hn'

theorem TrialExact.of_sublist {bs bs' : List Proto.CompactBlock} (hs : bs.Sublist bs')
    (h : TrialExact srv v bs') : TrialExact srv v bs :=
  fun l hl ↦ h l ((Chain.located_sublist hs).subset hl)

/-! ## What marking does to a report -/

theorem markKnownNote_familyNote (spent : List String) (S : Set Bytes32) (size : Option Nat)
    (start : Nat) (o : DecryptedOutput) :
    markKnownNote spent (familyNote S size start o) =
      familyNote (S ∪ {n | Hex.encode n.1 ∈ spent}) size start o := by
  cases hn : o.nullifier with
  | none => simp [markKnownNote, familyNote, orchardFamilyNote, hn]
  | some n =>
      by_cases hs : Hex.encode n.1 ∈ spent
      · simp [markKnownNote, familyNote, orchardFamilyNote, hn, hs]
      · simp [markKnownNote, familyNote, orchardFamilyNote, hn, hs]

theorem markKnown_report (spent : List String) (S : Pool → Set Bytes32) (l : Located)
    (x : List UInt8 × DecryptedTx) : markKnown spent (l.report v S x) =
      l.report v (fun p ↦ S p ∪ {n | Hex.encode n.1 ∈ spent}) x := by
  simp only [markKnown, Located.report, List.map_map]
  congr 1 <;> exact List.map_congr_left fun o _ ↦ markKnownNote_familyNote _ _ _ _ o

/-! ## The invariant -/

/-- The store holds the reports of a set of transactions, each note flagged by what the
set reveals. -/
def Holds (srv : Server) (v : View U) (T : Set Located) (store : List ShieldedTransaction) :
    Prop :=
  ∀ t, t ∈ store ↔ ∃ l ∈ (v.ledger srv).detected T ∅, ∃ x, l.opened srv v = some x ∧
    t = l.report v ((v.ledger srv).revealed T) x

theorem holds_nil : Holds srv v ∅ [] := by
  intro t
  constructor
  · exact fun h ↦ absurd h List.not_mem_nil
  · rintro ⟨l, ⟨hl, -⟩, -⟩
    exact absurd hl (Set.notMem_empty l)

/-- One scan from an empty known list holds its range. -/
theorem Outcome.holds {blocks : List Proto.CompactBlock} {res : SyncResult}
    (h : Outcome srv v ∅ blocks res) (hu : UniqueTxids blocks) (ht : TrialExact srv v blocks) :
    Holds srv v (range blocks) res.transactions := by
  have hreport : ∀ l ∈ range blocks, ∀ x, l.opened srv v = some x →
      l.report v ((v.ledger srv).spent (range blocks) ∅) x =
        l.report v ((v.ledger srv).revealed (range blocks)) x := fun l hl x hx ↦
    (Located.report_eq_iff hx).mpr fun p n hn ↦
      (complete_of_trialExact ht).mem_spent_iff hl hn p
  intro t
  constructor
  · intro hmem
    obtain ⟨l, hl, x, hx, rfl⟩ := h.sound t hmem
    exact ⟨l, hl, x, hx, hreport l hl.1 x hx⟩
  · rintro ⟨l, hl, x, hx, rfl⟩
    rw [← hreport l hl.1 x hx]
    exact h.complete hu l hl x hx

/-- What a store passes to the next scan is what its range left unspent. -/
theorem Holds.knownSet_unspentNullifiers {T : Set Located} {store : List ShieldedTransaction}
    (h : Holds srv v T store) (hc : (v.ledger srv).Complete T)
    (hs : (v.ledger srv).PoolScoped T) :
    knownSet (unspentNullifiers store) = (v.ledger srv).unspent T := by
  ext n
  rw [Ledger.mem_unspent_iff hc hs]
  constructor
  · rintro ⟨k, hk, hd⟩
    obtain ⟨note, hnote, hk⟩ := List.mem_filterMap.mp hk
    obtain ⟨t, ht, hnote⟩ := List.mem_flatMap.mp hnote
    obtain ⟨l, hl, x, hx, rfl⟩ := (h t).mp ht
    have hpool : ∃ pool, note ∈ (l.report v ((v.ledger srv).revealed T) x).notes pool := by
      rcases List.mem_append.mp hnote with hn | hn
      · exact ⟨.orchard, hn⟩
      · exact ⟨.ironwood, hn⟩
    obtain ⟨pool, hpool⟩ := hpool
    obtain ⟨o, ho, size, start, rfl⟩ := Located.exists_of_mem_report hpool
    split at hk
    · cases hk
    · rename_i hns
      obtain ⟨m, hm, rfl⟩ := Option.map_eq_some_iff.mp hk
      rw [decode_encode] at hd
      obtain rfl : m = n := Subtype.ext (Except.ok.inj hd)
      refine ⟨l, hl.1, pool, Located.mem_notes.mpr ⟨x.1, x.2, hx, o, ho, hm⟩, fun hr ↦ ?_⟩
      exact hns (isSpent_familyNote.mpr ⟨m, hm, hr⟩)
  · rintro ⟨l, hl, pool, hn, hr⟩
    obtain ⟨raw, d, hx, o, ho, hno⟩ := Located.mem_notes.mp hn
    have hdet : l ∈ (v.ledger srv).detected T ∅ :=
      ⟨hl, Option.isSome_of_mem hx, Or.inl (hc l hl pool n hn)⟩
    refine ⟨Hex.encode n.1, List.mem_filterMap.mpr ?_, decode_encode _⟩
    have hmem := (h _).mpr ⟨l, hdet, _, hx, rfl⟩
    have hnote : ∃ size start, familyNote ((v.ledger srv).revealed T pool) size start o ∈
        (l.report v ((v.ledger srv).revealed T) (raw, d)).spendable := by
      cases pool
      · exact ⟨_, _, List.mem_append_left _ (List.mem_map_of_mem ho)⟩
      · exact ⟨_, _, List.mem_append_right _ (List.mem_map_of_mem ho)⟩
    obtain ⟨size, start, hnote⟩ := hnote
    refine ⟨_, List.mem_flatMap.mpr ⟨_, hmem, hnote⟩, ?_⟩
    have hns : ¬ (familyNote ((v.ledger srv).revealed T pool) size start o).isSpent = true := by
      rw [isSpent_familyNote]
      rintro ⟨m, hm, hr'⟩
      cases hno.symm.trans hm
      exact hr hr'
    rw [if_neg hns]
    exact nullifier_familyNote.mpr hno

/-- A scan that knows what the store left unspent extends what the store holds. -/
theorem Holds.absorb {S : Set Located} {blocks : List Proto.CompactBlock}
    {store : List ShieldedTransaction} {res : SyncResult} (h : Holds srv v S store)
    (ho : Outcome srv v ((v.ledger srv).unspent S) blocks res)
    (hseq : (v.ledger srv).Sequential S (range blocks))
    (hids : ∀ l ∈ S, ∀ l' ∈ range blocks, l.txid ≠ l'.txid) (hu : UniqueTxids blocks)
    (hS : (v.ledger srv).Complete S) (hT : TrialExact srv v blocks) :
    Holds srv v (S ∪ range blocks) (absorb store res) := by
  have hc := complete_of_trialExact hT
  have hspent : ∀ n : Bytes32, Hex.encode n.1 ∈ res.spentKnownNullifiers ↔
      n ∈ (v.ledger srv).unspent S ∧ ∃ q, n ∈ (v.ledger srv).revealed (range blocks) q := by
    intro n
    rw [ho.spentKnown]
    constructor
    · rintro ⟨m, hm, hr, heq⟩
      obtain rfl : n = m := Subtype.ext (encode_inj.mp heq)
      exact ⟨hm, hr⟩
    · rintro ⟨hm, hr⟩
      exact ⟨n, hm, hr, rfl⟩
  -- an old record, marked, is flagged by the union
  have hold : ∀ l ∈ S, ∀ x, l.opened srv v = some x →
      markKnown res.spentKnownNullifiers (l.report v ((v.ledger srv).revealed S) x) =
        l.report v ((v.ledger srv).revealed (S ∪ range blocks)) x := by
    intro l hl x hx
    rw [markKnown_report, Located.report_eq_iff hx]
    intro p n hn
    rw [hseq.revealed_left_iff hS hl hn]
    exact or_congr Iff.rfl (hspent n)
  -- and so is a new one
  have hnew : ∀ l ∈ range blocks, ∀ x, l.opened srv v = some x →
      markKnown res.spentKnownNullifiers
          (l.report v ((v.ledger srv).spent (range blocks) ((v.ledger srv).unspent S)) x) =
        l.report v ((v.ledger srv).revealed (S ∪ range blocks)) x := by
    intro l hl x hx
    rw [markKnown_report, Located.report_eq_iff hx]
    intro p n hn
    rw [hseq.revealed_right_iff hc hl hn]
    exact or_congr (hc.mem_spent_iff hl hn p) (hspent n)
  intro t
  rw [hseq.detected_union, LedgerZcash.absorb, List.mem_map]
  constructor
  · rintro ⟨t', ht', rfl⟩
    rcases List.mem_append.mp ht' with ht' | ht'
    · obtain ⟨l, hl, x, hx, rfl⟩ := (h t').mp ht'
      exact ⟨l, Or.inl hl, x, hx, hold l hl.1 x hx⟩
    · obtain ⟨l, hl, x, hx, rfl⟩ := ho.sound t' (List.mem_filter.mp ht').1
      exact ⟨l, Or.inr hl, x, hx, hnew l hl.1 x hx⟩
  · rintro ⟨l, hl | hl, x, hx, rfl⟩
    · exact ⟨_, List.mem_append_left _ ((h _).mpr ⟨l, hl, x, hx, rfl⟩), hold l hl.1 x hx⟩
    · refine ⟨_, List.mem_append_right _ (List.mem_filter.mpr
        ⟨ho.complete hu l hl x hx, ?_⟩), hnew l hl.1 x hx⟩
      rw [decide_eq_true_iff]
      intro hmem
      obtain ⟨t', ht', hid⟩ := List.mem_map.mp hmem
      obtain ⟨l', hl', x', -, rfl⟩ := (h t').mp ht'
      exact hids l' hl'.1 l hl.1 hid

/-! ## The run -/

/-- A scan of a slice, with a known list of its own. -/
theorem outcome_of_slice {c : Chain} (hserve : c.Serves srv) {p : SyncParams}
    (hv : p.view U = .ok v) {rt : Runtime} {s e : UInt32} {known : List String} {out : ScanOutput}
    (h : runSyncInner U rt srv
      { p with startHeight := s, endHeight := e, knownNullifiers := known } = .ok out) :
    Outcome srv v (knownSet known) (c.slice s.toNat e.toNat) out.result :=
  outcome_of_runSyncInner
    (p := { p with startHeight := s, endHeight := e, knownNullifiers := known })
    hv (hserve _ _) h

/-- One piece extends what the store holds. -/
theorem Holds.step {c : Chain} (hserve : c.Serves srv) {p : SyncParams} (hv : p.view U = .ok v)
    {rt : Runtime} {a e : Nat} {s m : UInt32} (ha : a ≤ s.toNat) (hsm : s.toNat ≤ m.toNat)
    (hme : m.toNat ≤ e) (hvalid : ValidBlocks srv v (c.slice a e))
    (ht : TrialExact srv v (c.slice a e)) {store : List ShieldedTransaction}
    {out : ScanOutput} (h : Holds srv v (c.below a s.toNat) store)
    (hrun : runSyncInner U rt srv { p with
      startHeight := s, endHeight := m, knownNullifiers := unspentNullifiers store } = .ok out) :
    Holds srv v (c.below a (m.toNat + 1)) (LedgerZcash.absorb store out.result) := by
  have hsub : range (c.slice s.toNat m.toNat) ⊆ range (c.slice a e) :=
    Chain.range_slice_mono ha hme
  have hbelow : c.below a s.toNat ⊆ range (c.slice a e) := by
    rintro l ⟨hmem, h1, h2⟩
    exact Chain.mem_range_slice.mpr ⟨hmem, h1, by omega⟩
  have hlt : ∀ l ∈ c.below a s.toNat, ∀ l' ∈ range (c.slice s.toNat m.toNat),
      l.block.height < l'.block.height := by
    rintro l ⟨-, -, h1⟩ l' hl'
    exact h1.trans_le (Chain.mem_range_slice.mp hl').2.1
  have hc := (complete_of_trialExact ht).mono hbelow
  have ho := outcome_of_slice hserve hv hrun
  rw [h.knownSet_unspentNullifiers hc (hvalid.poolScoped.mono hbelow)] at ho
  rw [← Chain.below_union_slice ha hsm]
  refine h.absorb ho (hvalid.sequential hbelow hsub hlt) ?_ (c.uniqueTxids_slice _ _) hc
    (ht.of_sublist (c.slice_sublist ha hme))
  intro l hl l' hl' hid
  have heq := List.inj_on_of_nodup_map (c.uniqueTxids_slice a e) (hbelow hl) (hsub hl')
    (displayHex_inj.mp hid)
  exact absurd (hlt l hl l' hl') (heq ▸ lt_irrefl _)

/-- The pieces of a range, scanned in order, end in a store that holds the range. -/
theorem holds_incremental {c : Chain} (hserve : c.Serves srv) {p : SyncParams}
    (hv : p.view U = .ok v) {rts : Nat → Runtime} {a s e : Nat}
    {ranges : List (UInt32 × UInt32)} (hr : Bisect.Cuts s e (ranges.map natRange)) (ha : a ≤ s)
    (hvalid : ValidBlocks srv v (c.slice a e)) (ht : TrialExact srv v (c.slice a e)) {n : Nat}
    {store store' : List ShieldedTransaction} (hstore : Holds srv v (c.below a s) store)
    (h : incremental U rts srv p n ranges store = .ok store') :
    Holds srv v (range (c.slice a e)) store' := by
  induction ranges generalizing s n store with
  | nil => exact absurd rfl hr.ne_nil
  | cons r rest ih =>
      obtain ⟨out, hrun, h⟩ := bind_eq_ok.mp h
      obtain ⟨rfl, hle, hrest⟩ := Bisect.Cuts.cons_iff.mp hr
      rcases hrest with ⟨hnil, rfl⟩ | ⟨hlt, hrest⟩
      · cases List.map_eq_nil_iff.mp hnil
        rw [← pure_eq_ok.mp h, ← Chain.below_succ]
        exact hstore.step hserve hv ha hle le_rfl hvalid ht hrun
      · exact ih hrest (by omega) (hstore.step hserve hv ha hle hlt.le hvalid ht hrun) h

/-- Incremental scans compose: the store ends up with the set of transactions, notes,
positions and flags of one scan of the whole range with an empty known list. -/
theorem incremental_eq_whole {c : Chain} (hserve : c.Serves srv) {p : SyncParams}
    (hv : p.view U = .ok v) {rts : Nat → Runtime} {rt : Runtime} {a b : UInt32}
    {ranges : List (UInt32 × UInt32)} (hr : Bisect.Cuts a.toNat b.toNat (ranges.map natRange))
    (hvalid : ValidBlocks srv v (c.slice a.toNat b.toNat))
    (ht : TrialExact srv v (c.slice a.toNat b.toNat)) {store : List ShieldedTransaction}
    {out : ScanOutput} (hinc : incremental U rts srv p 0 ranges [] = .ok store)
    (hwhole : runSyncInner U rt srv
      { p with startHeight := a, endHeight := b, knownNullifiers := [] } = .ok out) :
    ∀ t, t ∈ store ↔ t ∈ out.result.transactions := by
  have hstore : Holds srv v (range (c.slice a.toNat b.toNat)) store := by
    refine holds_incremental hserve hv hr le_rfl hvalid ht ?_ hinc
    rw [Chain.below_self]
    exact holds_nil
  have ho := outcome_of_slice hserve hv hwhole
  have hnone : knownSet [] = ∅ := by simp [knownSet]
  rw [hnone] at ho
  have hwhole' := ho.holds (c.uniqueTxids_slice _ _) ht
  intro t
  rw [hstore t, hwhole' t]

/-- The small chain in two pieces, cut between the note and its spend. -/
theorem incremental_eq_whole_sample :
    ∃ store out, incremental sampleCrypto (fun _ ↦ sampleRuntime) sampleServer (sampleParams 1 2) 0
        [(1, 1), (2, 2)] [] = .ok store ∧
      runSyncInner sampleCrypto sampleRuntime sampleServer (sampleParams 1 2) = .ok out ∧
      ∀ t, t ∈ store ↔ t ∈ out.result.transactions := by
  obtain ⟨store, hinc⟩ := exists_ok_of_isOk
    (show (incremental sampleCrypto (fun _ ↦ sampleRuntime) sampleServer (sampleParams 1 2) 0
      [(1, 1), (2, 2)] []).isOk = true by decide +kernel)
  obtain ⟨out, hwhole⟩ := exists_ok_of_isOk
    (show (runSyncInner sampleCrypto sampleRuntime sampleServer (sampleParams 1 2)).isOk = true by
      decide +kernel)
  refine ⟨store, out, hinc, hwhole, incremental_eq_whole (c := sampleChain) (v := sampleView)
    (fun _ _ ↦ rfl) rfl (.cut (by decide) (by decide) (.last (by decide)))
    ⟨?_, ?_, ?_⟩ (by unfold TrialExact; decide +kernel) hinc hwhole⟩
  · decide +kernel
  · decide +kernel
  · decide +kernel

end LedgerZcash
