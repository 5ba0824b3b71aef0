import LedgerZcash.Sync.Located

/-!
# The phases of a successful scan

A scan that returns a value met no error on the way, so each of its phases is a pure
function of the block results: what is kept in Phase 2, tracked, added in Phase 4, put
back in height order and flagged in Phase 5 (`scanResults_eq_ok`).
-/

namespace LedgerZcash

open Hex Collect

/-! ## Marking -/

/-- The note's nullifier is one of `spent`. -/
def ShieldedNote.nullifierIn (spent : List Bytes32) (note : ShieldedNote) : Bool :=
  note.nullifier.any fun h ↦
    spent.any fun n ↦ decide ((Hex.decode h).toOption.bind (Arr.tryFrom 32) = some n)

/-- What `markNote` makes of a note. -/
def flagNote (spent : List Bytes32) (note : ShieldedNote) : ShieldedNote :=
  if note.nullifierIn spent then { note with isSpent := true } else note

theorem eq_flagNote_of_markNote {spent : List Bytes32} {note note' : ShieldedNote}
    (h : markNote spent note = .ok note') : note' = flagNote spent note := by
  unfold markNote at h
  split at h
  · rename_i hn
    rw [← pure_eq_ok.mp h]
    simp [flagNote, ShieldedNote.nullifierIn, hn]
  · rename_i nfHex hn
    split at h
    · rename_i b hb
      split at h
      · rename_i nf hnf
        rw [← pure_eq_ok.mp h]
        simp [flagNote, ShieldedNote.nullifierIn, Except.toOption, hn, hb, hnf]
      · rename_i hnf
        rw [← pure_eq_ok.mp h]
        simp [flagNote, ShieldedNote.nullifierIn, Except.toOption, hn, hb, hnf]
    · rename_i e he
      obtain ⟨_, -, h⟩ := bind_eq_ok.mp h
      rw [← pure_eq_ok.mp h]
      simp [flagNote, ShieldedNote.nullifierIn, Except.toOption, hn, he]

theorem flagNote_nil (note : ShieldedNote) : flagNote [] note = note := by
  have h : note.nullifierIn [] = false := by
    cases hn : note.nullifier with
    | none => simp [ShieldedNote.nullifierIn, hn]
    | some s => simp [ShieldedNote.nullifierIn, hn]
  simp [flagNote, h]

/-- On the note of a decrypted output, the hex round trip is transparent. -/
theorem nullifierIn_orchardFamilyNote {spent : List Bytes32} {size : Option Nat} {start : Nat}
    {o : DecryptedOutput} : (orchardFamilyNote size start o).nullifierIn spent = true ↔
      ∃ n, o.nullifier = some n ∧ n ∈ spent := by
  cases hn : o.nullifier with
  | none => simp [ShieldedNote.nullifierIn, orchardFamilyNote, hn]
  | some n => simp [ShieldedNote.nullifierIn, orchardFamilyNote, Except.toOption, hn]

/-- What Phase 5 makes of a transaction: each pool against its own spent set. -/
def flagTransaction (spent : Pool → List Bytes32) (tx : ShieldedTransaction) :
    ShieldedTransaction :=
  { tx with
    orchardNotes := tx.orchardNotes.map (flagNote (spent .orchard))
    ironwoodNotes := tx.ironwoodNotes.map (flagNote (spent .ironwood)) }

theorem eq_map_of_markSpent {spent : List Bytes32} {notes notes' : List ShieldedNote}
    (h : markSpent notes spent = .ok notes') : notes' = notes.map (flagNote spent) := by
  have h' := mapM_eq_ok_iff.mp h
  clear h
  induction h' with
  | nil => rfl
  | cons hn _ ih => rw [List.map_cons, ← eq_flagNote_of_markNote hn, ih]

theorem eq_flagTransaction_of_markTransaction {spent : Pool → List Bytes32}
    {tx tx' : ShieldedTransaction}
    (h : markTransaction (spent .orchard) (spent .ironwood) tx = .ok tx') :
    tx' = flagTransaction spent tx := by
  unfold markTransaction at h
  obtain ⟨orchardNotes, ho, h⟩ := bind_eq_ok.mp h
  obtain ⟨ironwoodNotes, hi, h⟩ := bind_eq_ok.mp h
  rw [← pure_eq_ok.mp h, eq_map_of_markSpent ho, eq_map_of_markSpent hi, flagTransaction]

/-- Phase 5 flags every transaction, also when it is skipped. -/
theorem eq_map_of_phase5 {spent : Pool → List Bytes32} {txs txs' : List ShieldedTransaction}
    (h : phase5 (spent .orchard) (spent .ironwood) txs = .ok txs') :
    txs' = txs.map (flagTransaction spent) := by
  unfold phase5 at h
  split at h
  · rename_i hnil
    obtain ⟨ho, hi⟩ := hnil
    rw [← pure_eq_ok.mp h]
    have hid : flagTransaction spent = id := by
      funext tx
      simp [flagTransaction, ho, hi, funext flagNote_nil]
    rw [hid, List.map_id]
  · have h' := mapM_eq_ok_iff.mp h
    clear h
    induction h' with
    | nil => rfl
    | cons ht _ ih => rw [List.map_cons, ← eq_flagTransaction_of_markTransaction ht, ih]

/-! ## Known nullifiers -/

/-- The 32-byte values among the entries of a known list. -/
def knownValues (ks : List String) : List Bytes32 := ks.filterMap (kept decodeKnownNullifier)

theorem mem_knownValues {ks : List String} {n : Bytes32} :
    n ∈ knownValues ks ↔ ∃ k ∈ ks, Hex.decode k = .ok n.1 := by
  rw [knownValues, List.mem_filterMap]
  refine exists_congr fun k ↦ and_congr_right fun _ ↦ ?_
  cases hd : Hex.decode k with
  | error e =>
      cases he : excerpt k <;>
        simp [kept, decodeKnownNullifier, hd, he, bind, Except.bind, Except.toOption, pure,
          Except.pure]
  | ok b =>
      simp only [kept, decodeKnownNullifier, hd, pure, Except.pure, Except.toOption,
        Option.join_some, Except.ok.injEq]
      exact Arr.tryFrom_eq_some

/-! ## The merged nullifier lists of a block -/

/-- Merging lists under their keys keeps what each key had and adds what it gets. -/
theorem mem_lookup_foldl_insert {κ β : Type} [DecidableEq κ] (l : List (κ × List β))
    (m : AList fun _ : κ ↦ List β) (k : κ) (b : β) :
    b ∈ ((l.foldl (fun m e ↦ m.insert e.1 ((m.lookup e.1).getD [] ++ e.2)) m).lookup k).getD [] ↔
      b ∈ (m.lookup k).getD [] ∨ ∃ e ∈ l, e.1 = k ∧ b ∈ e.2 := by
  induction l generalizing m with
  | nil => simp
  | cons e l ih =>
      rw [List.foldl_cons, ih]
      by_cases hk : k = e.1
      · subst hk
        simp [AList.lookup_insert, or_assoc]
      · have hk' : e.1 ≠ k := fun h ↦ hk h.symm
        simp [AList.lookup_insert_ne hk, hk']

theorem mem_perTxidNfs {r : TrialResult} {txid : String} {n : Bytes32} :
    n ∈ ((perTxidNfs r).lookup txid).getD [] ↔
      ∃ pool, ∃ e ∈ r.nullifiersOf pool, e.1 = txid ∧ n ∈ e.2 := by
  have h := mem_lookup_foldl_insert (r.txNullifiers ++ r.txIronwoodNullifiers) ∅ txid n
  rw [perTxidNfs]
  refine h.trans ?_
  simp only [AList.lookup_empty, Option.getD_none, List.not_mem_nil, false_or, List.mem_append]
  constructor
  · rintro ⟨e, he | he, hk, hn⟩
    · exact ⟨.orchard, e, he, hk, hn⟩
    · exact ⟨.ironwood, e, he, hk, hn⟩
  · rintro ⟨_ | _, e, he, hk, hn⟩
    · exact ⟨e, Or.inl he, hk, hn⟩
    · exact ⟨e, Or.inr he, hk, hn⟩

theorem mem_phase4Targets {rt : Runtime} {ours : List Bytes32} {alreadyFound : List String}
    {results : List TrialResult} {r : TrialResult} {txid : String} :
    (r, txid) ∈ phase4Targets rt ours alreadyFound results ↔
      r ∈ results ∧ txid ∉ alreadyFound ∧
        ∃ n ∈ ours, ∃ pool, ∃ e ∈ r.nullifiersOf pool, e.1 = txid ∧ n ∈ e.2 := by
  simp only [phase4Targets, List.mem_flatMap, List.mem_filterMap, Sigma.exists,
    (rt.shuffle_perm _).mem_iff, ← AList.mem_lookup_iff]
  constructor
  · rintro ⟨r', hr, txid', nfs, hl, h⟩
    split at h
    · cases h
    · rename_i hf
      split at h
      · rename_i ha
        cases h
        obtain ⟨n, hn, ho⟩ := List.any_eq_true.mp ha
        refine ⟨hr, hf, n, by simpa using ho, mem_perTxidNfs.mp ?_⟩
        rw [Option.mem_def.mp hl]
        exact hn
      · cases h
  · rintro ⟨hr, hf, n, ho, h⟩
    have hn := mem_perTxidNfs.mpr h
    cases hl : (perTxidNfs r).lookup txid with
    | none => simp [hl] at hn
    | some nfs =>
        rw [hl] at hn
        have ha : nfs.any (· ∈ ours) = true := List.any_eq_true.mpr ⟨n, hn, by simpa using ho⟩
        exact ⟨r, hr, txid, nfs, Option.mem_def.mpr hl, by rw [if_neg hf, if_pos ha]⟩

/-- A block is visited once for each of its txids. -/
theorem nodup_map_phase4Targets {rt : Runtime} {ours : List Bytes32} {alreadyFound : List String}
    (r : TrialResult) :
    ((phase4Targets rt ours alreadyFound [r]).map Prod.snd).Nodup := by
  have hkeys : ((rt.shuffle (perTxidNfs r).entries).map Sigma.fst).Nodup :=
    ((rt.shuffle_perm _).map _).nodup_iff.mpr (perTxidNfs r).nodupKeys
  rw [phase4Targets, List.flatMap_singleton]
  refine hkeys.sublist (map_filterMap_sublist ?_ _)
  intro e a h
  dsimp only at h
  split at h
  · cases h
  · split at h
    · cases h
      rfl
    · cases h

/-! ## The phases -/

section Phases

variable {U : NoteCrypto} {rt : Runtime} {srv : Server} {v : View U}

/-- The matched transactions as Phase 2 keeps them: record and received nullifiers. -/
def phase2Kept (srv : Server) (v : View U) (results : List TrialResult) :
    List (ShieldedTransaction × List Bytes32) :=
  (phase2Targets results).filterMap (kept (fetchOf U srv v.ufvk v.network))

/-- What a scan of these results tracks, known values first. -/
def oursOf (srv : Server) (v : View U) (known : List String) (results : List TrialResult) :
    List Bytes32 :=
  knownValues known ++ (phase2Kept srv v results).flatMap Prod.snd

/-- The transactions that Phase 4 adds. -/
def phase4Kept (rt : Runtime) (srv : Server) (v : View U) (known : List String)
    (results : List TrialResult) : List ShieldedTransaction :=
  ((phase4Targets rt (oursOf srv v known results)
    (((phase2Kept srv v results).map Prod.fst).map ShieldedTransaction.txid) results).filterMap
      (kept (fetchOf U srv v.ufvk v.network))).map Prod.fst

/-- The nullifiers of a pool that a scan sees spent. -/
def spentOf (srv : Server) (v : View U) (known : List String) (results : List TrialResult)
    (pool : Pool) : List Bytes32 :=
  spentIn (oursOf srv v known results) (TrialResult.nullifiersOf pool) results

/-- The transactions before marking: matched ones in block order, and when anything is
tracked the spending ones, back in height order. -/
def unmarked (rt : Runtime) (srv : Server) (v : View U) (known : List String)
    (results : List TrialResult) : List ShieldedTransaction :=
  if oursOf srv v known results = [] then (phase2Kept srv v results).map Prod.fst
  else rt.sortByKey ShieldedTransaction.blockHeight
    ((phase2Kept srv v results).map Prod.fst ++ phase4Kept rt srv v known results)

/-- The fetches that a scan makes all succeeded. -/
def Fetched (rt : Runtime) (srv : Server) (v : View U) (known : List String)
    (results : List TrialResult) : Prop :=
  ∀ a, (a ∈ phase2Targets results ∨ a ∈ phase4Targets rt (oursOf srv v known results)
    (((phase2Kept srv v results).map Prod.fst).map ShieldedTransaction.txid) results) →
      ∃ o, fetchOf U srv v.ufvk v.network a = .ok o

theorem eq_unmarked_of_phase4 {known : List String} {results : List TrialResult}
    {found : List ShieldedTransaction}
    (hm : ∀ a ∈ phase2Targets results, ∃ o, fetchOf U srv v.ufvk v.network a = .ok o)
    (h : phase4 U rt srv v.ufvk v.network (oursOf srv v known results) results
      ((phase2Kept srv v results).map Prod.fst) = .ok found) :
    Fetched rt srv v known results ∧ found = unmarked rt srv v known results := by
  unfold phase4 at h
  unfold unmarked
  split at h
  · rename_i hnil
    rw [if_pos hnil]
    refine ⟨?_, (pure_eq_ok.mp h).symm⟩
    rintro a (ha | ha)
    · exact hm a ha
    · obtain ⟨-, -, n, hn, -⟩ := mem_phase4Targets.mp ha
      exact absurd (hnil ▸ hn) List.not_mem_nil
  · rename_i hnil
    rw [if_neg hnil]
    obtain ⟨spending, hs, h⟩ := bind_eq_ok.mp h
    obtain ⟨hall, rfl⟩ := collectM_eq_ok_iff.mp hs
    exact ⟨fun a ha ↦ ha.elim (hm a) (hall a), (pure_eq_ok.mp h).symm⟩

/-- A successful run of the phases is a pure function of the block results. -/
theorem scanResults_eq_ok {known : List String} {results : List TrialResult} {res : SyncResult}
    (h : scanResults U rt srv v.ufvk v.network known results = .ok res) :
    Fetched rt srv v known results ∧
      res.transactions = (unmarked rt srv v known results).map
        (flagTransaction (spentOf srv v known results)) ∧
      res.blocksScanned = asU32 results.length ∧
      res.spentKnownNullifiers =
        ((rt.shuffle (spentOf srv v known results .orchard) ++
          rt.shuffle (spentOf srv v known results .ironwood)).filter
            (· ∈ knownValues known)).map fun n ↦ Hex.encode n.1 := by
  unfold scanResults at h
  obtain ⟨ks, hks, h⟩ := bind_eq_ok.mp h
  obtain ⟨matched, hm, h⟩ := bind_eq_ok.mp h
  obtain ⟨found, hf, h⟩ := bind_eq_ok.mp h
  obtain ⟨txs, ht, h⟩ := bind_eq_ok.mp h
  obtain ⟨ks', hks', h⟩ := bind_eq_ok.mp h
  have hknown : ks = knownValues known := (collectM_eq_ok_iff.mp hks).2
  have hknown' : ks' = knownValues known := (collectM_eq_ok_iff.mp hks').2
  have hmatched : matched = phase2Kept srv v results := (collectM_eq_ok_iff.mp hm).2
  subst hknown hknown' hmatched
  obtain ⟨hfetched, hfound⟩ := eq_unmarked_of_phase4 (collectM_eq_ok_iff.mp hm).1 hf
  subst hfound
  have hmark := @eq_map_of_phase5 (spentOf srv v known results) _ _ ht
  subst hmark
  rw [← pure_eq_ok.mp h]
  exact ⟨hfetched, rfl, rfl, rfl⟩

/-- The record of a fetched transaction carries the height of its block and its txid. -/
theorem kept_fetchOf_eq_some {r : TrialResult} {txid : String}
    {x : ShieldedTransaction × List Bytes32}
    (h : kept (fetchOf U srv v.ufvk v.network) (r, txid) = some x) :
    x.1.blockHeight = r.height ∧ x.1.txid = txid := by
  have hok : fetchOf U srv v.ufvk v.network (r, txid) = .ok (some x) := by
    unfold kept at h
    cases hf : fetchOf U srv v.ufvk v.network (r, txid) with
    | error e => simp [hf, Except.toOption] at h
    | ok o => simpa [hf, Except.toOption] using h
  unfold fetchOf fetchAndDecryptTx at hok
  obtain ⟨txidBytes, -, hok⟩ := bind_eq_ok.mp hok
  obtain ⟨rawTx, -, hok⟩ := bind_eq_ok.mp hok
  dsimp only at hok
  split at hok
  · cases pure_eq_ok.mp hok
  · cases pure_eq_ok.mp hok
    exact ⟨rfl, rfl⟩

end Phases

end LedgerZcash
