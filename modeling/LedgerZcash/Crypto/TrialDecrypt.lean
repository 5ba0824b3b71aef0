import LedgerZcash.Crypto.Decrypt
import LedgerZcash.Lib.Collect

/-!
# What trial decryption of a block returns

`trialDecryptBlock` flattens the outputs of all transactions, cuts them into chunks,
batch-decrypts each chunk and re-attributes the answers by an index tag.  Here it is
brought back to one transaction at a time: a txid is returned exactly when some
well-formed output of its transaction decrypts (`trialDecryptBlock_eq`), whatever the
number of worker threads.
-/

namespace LedgerZcash

open Hex

/-! ## Chunks and tags -/

section Lists

variable {α β γ : Type}

theorem toChunksAux_append_flatten (n : Nat) (l : List α) (i : Nat) :
    (List.toChunksAux n l i).1 ++ (List.toChunksAux n l i).2.flatten = l := by
  induction l generalizing i with
  | nil => simp [List.toChunksAux]
  | cons a l ih =>
      cases i with
      | zero => simpa [List.toChunksAux] using ih n
      | succ i => simpa [List.toChunksAux] using ih i

/-- The chunks are the list, in order. -/
theorem parChunks_flatten (size : Nat) (l : List α) : (parChunks size l).flatten = l := by
  have h := toChunksAux_append_flatten (size - 1) l 0
  cases l with
  | nil => simp [parChunks, List.toChunksAux]
  | cons a l => simpa [parChunks, List.toChunksAux] using h

/-- A pointwise step over chunks is a pointwise step over the list. -/
theorem flatMap_parChunks (size : Nat) (l : List α) (f : α → Option β) :
    (parChunks size l).flatMap (List.filterMap f) = l.filterMap f := by
  rw [List.flatMap_def, ← List.filterMap_flatten, parChunks_flatten]

/-- Selecting by a condition on the index is filtering, when the condition agrees with
one on the element at that index. -/
theorem filterMap_zipIdx_eq {l : List α} {P : Nat → Prop} [DecidablePred P] {q : α → Bool}
    {f : α → β} (h : ∀ i a, l[i]? = some a → (P i ↔ q a = true)) :
    (l.zipIdx.filterMap fun (a, i) ↦ if P i then some (f a) else none) = (l.filter q).map f := by
  have key : (l.zipIdx.filterMap fun (a, i) ↦ if P i then some (f a) else none) =
      l.zipIdx.filterMap fun x ↦ if q x.1 then some (f x.1) else none := by
    refine List.filterMap_congr fun x hx ↦ ?_
    have hi : l[x.2]? = some x.1 := List.mem_zipIdx_iff_getElem?.mp hx
    by_cases hq : q x.1 = true
    · simp [hq, (h _ _ hi).mpr hq]
    · simp [hq, mt (h _ _ hi).mp hq]
  have hfst : l = l.zipIdx.map Prod.fst := by simp
  rw [key]
  conv_rhs => rw [hfst]
  induction l.zipIdx with
  | nil => rfl
  | cons x xs ih => by_cases hq : q x.1 = true <;> simp [hq, ih]

end Lists

/-! ## One output at a time -/

section Matched

variable {Ivk Output : Type} (D : BatchDecryption Ivk Output)

theorem matchedIndices_eq (ivks : List Ivk) (threads : Nat) (raw : List (Nat × Output)) :
    matchedIndices D ivks threads raw =
      raw.filterMap fun x ↦ (D.single ivks x.2).map fun _ ↦ x.1 := by
  rw [matchedIndices, ← flatMap_parChunks (max (raw.length / threads) 1) raw]
  refine congrArg (List.flatMap · _) (funext fun chunk ↦ ?_)
  rw [D.batch_eq, List.map_map]
  induction chunk with
  | nil => rfl
  | cons x xs ih =>
      cases h : D.single ivks x.2 <;> simpa [h, List.filterMap_cons] using ih

/-- An index is matched when one of its tagged outputs decrypts. -/
theorem mem_matchedIndices {ivks : List Ivk} {threads : Nat} {raw : List (Nat × Output)}
    {i : Nat} : i ∈ matchedIndices D ivks threads raw ↔
      ∃ o, (i, o) ∈ raw ∧ (D.single ivks o).isSome := by
  rw [matchedIndices_eq, List.mem_filterMap]
  constructor
  · rintro ⟨⟨j, o⟩, hraw, h⟩
    obtain ⟨_, hs, rfl⟩ := Option.map_eq_some_iff.mp h
    exact ⟨o, hraw, by simp [hs]⟩
  · rintro ⟨o, hraw, hs⟩
    obtain ⟨k, hk⟩ := Option.isSome_iff_exists.mp hs
    exact ⟨(i, o), hraw, by simp [hk]⟩

end Matched

theorem mem_taggedOutputs {α β : Type} {outputs : CompactTransaction → List α}
    {parse : α → Except Error β} {txs : List CompactTransaction} {i : Nat} {b : β} :
    (i, b) ∈ taggedOutputs outputs parse txs ↔
      ∃ tx, txs[i]? = some tx ∧ ∃ o ∈ outputs tx, parse o = .ok b := by
  simp only [taggedOutputs, List.mem_flatMap, List.mem_filterMap, Option.map_eq_some_iff,
    Prod.exists, Prod.mk.injEq, List.mem_zipIdx_iff_getElem?]
  constructor
  · rintro ⟨tx, j, hj, o, ho, b', hb, rfl, rfl⟩
    refine ⟨tx, hj, o, ho, ?_⟩
    cases hp : parse o with
    | error e => simp [hp, Except.toOption] at hb
    | ok b'' => simpa [hp, Except.toOption] using hb
  · rintro ⟨tx, hi, o, ho, hp⟩
    exact ⟨tx, i, hi, o, ho, b, by simp [hp, Except.toOption], rfl, rfl⟩

/-! ## One transaction at a time -/

/-- Some output of a list is well formed and decrypts. -/
def hits {α β : Type} (parse : α → Except Error β) (single : β → Option Nat)
    (outputs : List α) : Bool :=
  outputs.any fun o ↦ match parse o with
    | .ok b => (single b).isSome
    | .error _ => false

theorem hits_eq_true {α β : Type} {parse : α → Except Error β} {single : β → Option Nat}
    {outputs : List α} : hits parse single outputs = true ↔
      ∃ o ∈ outputs, ∃ b, parse o = .ok b ∧ (single b).isSome := by
  simp only [hits, List.any_eq_true]
  refine exists_congr fun o ↦ and_congr_right fun _ ↦ ?_
  cases h : parse o <;> simp

variable (U : NoteCrypto)

def saplingHits (ivks : PreparedIvks U) (zip212 : Zip212Enforcement) (tx : CompactTransaction) :
    Bool :=
  hits (parseCompactSaplingOutput U)
    (fun d ↦ U.saplingBatch.single (ivks.sapling.map Prod.fst) (zip212, d)) tx.saplingOutputs

def orchardHits (ivks : PreparedIvks U) (tx : CompactTransaction) : Bool :=
  hits (parseCompactOrchardAction U) (U.orchardBatch.single (ivks.orchard.map Prod.fst))
    tx.orchardActions

def ironwoodHits (ivks : PreparedIvks U) (tx : CompactTransaction) : Bool :=
  hits (parseCompactOrchardAction U) (U.ironwoodBatch.single (ivks.orchard.map Prod.fst))
    tx.ironwoodActions

/-- The transaction has a well-formed output that decrypts in some pool. -/
def trialMatches (ivks : PreparedIvks U) (zip212 : Zip212Enforcement)
    (tx : CompactTransaction) : Bool :=
  saplingHits U ivks zip212 tx || orchardHits U ivks tx || ironwoodHits U ivks tx

variable {U} {ivks : PreparedIvks U} {threads : Nat} {txs : List CompactTransaction} {i : Nat}

theorem mem_saplingMatched {zip212 : Zip212Enforcement} :
    i ∈ saplingMatched U ivks threads zip212 txs ↔
      ∃ tx, txs[i]? = some tx ∧ saplingHits U ivks zip212 tx = true := by
  simp only [saplingMatched, mem_matchedIndices, List.mem_map, saplingHits, hits_eq_true]
  constructor
  · rintro ⟨o, ⟨⟨j, d⟩, hjd, h⟩, hs⟩
    cases h
    obtain ⟨tx, htx, a, ha, hd⟩ := mem_taggedOutputs.mp hjd
    exact ⟨tx, htx, a, ha, d, hd, hs⟩
  · rintro ⟨tx, htx, a, ha, d, hd, hs⟩
    exact ⟨(zip212, d), ⟨(i, d), mem_taggedOutputs.mpr ⟨tx, htx, a, ha, hd⟩, rfl⟩, hs⟩

theorem mem_orchardMatched : i ∈ orchardMatched U ivks threads txs ↔
    ∃ tx, txs[i]? = some tx ∧ orchardHits U ivks tx = true := by
  simp only [orchardMatched, mem_matchedIndices, mem_taggedOutputs, orchardHits, hits_eq_true]
  constructor
  · rintro ⟨d, ⟨tx, htx, a, ha, hd⟩, hs⟩
    exact ⟨tx, htx, a, ha, d, hd, hs⟩
  · rintro ⟨tx, htx, a, ha, d, hd, hs⟩
    exact ⟨d, ⟨tx, htx, a, ha, hd⟩, hs⟩

theorem mem_ironwoodMatched : i ∈ ironwoodMatched U ivks threads txs ↔
    ∃ tx, txs[i]? = some tx ∧ ironwoodHits U ivks tx = true := by
  simp only [ironwoodMatched, mem_matchedIndices, mem_taggedOutputs, ironwoodHits, hits_eq_true]
  constructor
  · rintro ⟨d, ⟨tx, htx, a, ha, hd⟩, hs⟩
    exact ⟨tx, htx, a, ha, d, hd, hs⟩
  · rintro ⟨tx, htx, a, ha, d, hd, hs⟩
    exact ⟨d, ⟨tx, htx, a, ha, hd⟩, hs⟩

/-- Trial decryption of a block keeps the transactions that match, in input order. -/
theorem trialDecryptBlock_eq (threads : Nat) (txs : List CompactTransaction)
    (ivks : PreparedIvks U) (height : Nat) (network : Network) :
    trialDecryptBlock U threads txs ivks height network =
      (txs.filter (trialMatches U ivks (zip212Enforcement network height))).map
        CompactTransaction.txid := by
  refine filterMap_zipIdx_eq (P := fun i ↦
    i ∈ saplingMatched U ivks (max threads 1) (zip212Enforcement network height) txs ∨
      i ∈ orchardMatched U ivks (max threads 1) txs ∨
      i ∈ ironwoodMatched U ivks (max threads 1) txs) fun i tx hi ↦ ?_
  simp only [mem_saplingMatched, mem_orchardMatched, mem_ironwoodMatched, hi, Option.some.injEq,
    exists_eq_left', trialMatches, Bool.or_eq_true]
  tauto

end LedgerZcash
