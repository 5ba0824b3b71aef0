import Mathlib.Data.Set.Lattice
import Mathlib.Tactic.Tauto

/-!
# What a wallet sees of a ledger

A ledger is a set of transactions.  Some are found on their own, because they pay the
wallet; the notes they create carry nullifiers, scoped to a pool.  A transaction that
reveals the nullifier of a note spends it.  A scan of a set of transactions starts from
nullifiers it already knows, detects the transactions that are found or that reveal a
tracked nullifier, and marks the notes whose nullifier is revealed.

Three facts carry every result about scans: a scan is monotone in what it looks at
(`detected_mono`); two scans that follow each other in time compose, when the second
one knows what the first left unspent (`Sequential.detected_union`); and scans that do
not know of each other miss exactly the pairs that fall between them
(`detected_iUnion_iff`).
-/

namespace LedgerZcash

universe u v w

/-- What a scan can read off the transactions of a ledger. -/
structure Ledger (Tx : Type u) (Pool : Type v) (Nf : Type w) where
  /-- The transaction is found on its own. -/
  found : Tx → Prop
  /-- The transaction can be read in full. -/
  readable : Tx → Prop
  /-- The nullifiers of the notes it creates for the wallet. -/
  notes : Tx → Pool → Set Nf
  /-- The nullifiers it reveals. -/
  reveals : Tx → Pool → Set Nf

namespace Ledger

variable {Tx : Type u} {Pool : Type v} {Nf : Type w} (L : Ledger Tx Pool Nf)

/-- The nullifiers of the notes that the found transactions create. -/
def received (T : Set Tx) : Set Nf := {n | ∃ t ∈ T, L.found t ∧ ∃ p, n ∈ L.notes t p}

/-- What a scan that starts from `K` looks for. -/
def tracked (T : Set Tx) (K : Set Nf) : Set Nf := K ∪ L.received T

/-- The nullifiers revealed in a pool. -/
def revealed (T : Set Tx) (p : Pool) : Set Nf := {n | ∃ t ∈ T, n ∈ L.reveals t p}

/-- The transaction reveals one of the given nullifiers. -/
def Spends (t : Tx) (K : Set Nf) : Prop := ∃ p, ∃ n ∈ L.reveals t p, n ∈ K

/-- The transactions a scan reports. -/
def detected (T : Set Tx) (K : Set Nf) : Set Tx :=
  {t | t ∈ T ∧ L.readable t ∧ (L.found t ∨ L.Spends t (L.tracked T K))}

/-- The nullifiers of a pool a scan sees spent. -/
def spent (T : Set Tx) (K : Set Nf) (p : Pool) : Set Nf := L.tracked T K ∩ L.revealed T p

/-- The received nullifiers that no transaction reveals. -/
def unspent (T : Set Tx) : Set Nf := {n | n ∈ L.received T ∧ ∀ p, n ∉ L.revealed T p}

/-! ## Monotonicity -/

section Mono

variable {L} {S T : Set Tx} {J K : Set Nf}

theorem received_mono (h : S ⊆ T) : L.received S ⊆ L.received T :=
  fun _ ⟨t, ht, hn⟩ ↦ ⟨t, h ht, hn⟩

theorem revealed_mono (h : S ⊆ T) (p : Pool) : L.revealed S p ⊆ L.revealed T p :=
  fun _ ⟨t, ht, hn⟩ ↦ ⟨t, h ht, hn⟩

theorem tracked_mono (hT : S ⊆ T) (hK : J ⊆ K) : L.tracked S J ⊆ L.tracked T K :=
  Set.union_subset_union hK (received_mono hT)

theorem Spends.mono {t : Tx} (h : L.Spends t J) (hK : J ⊆ K) : L.Spends t K := by
  obtain ⟨p, n, hn, hJ⟩ := h
  exact ⟨p, n, hn, hK hJ⟩

theorem detected_mono (hT : S ⊆ T) (hK : J ⊆ K) : L.detected S J ⊆ L.detected T K := by
  rintro t ⟨ht, hr, h⟩
  exact ⟨hT ht, hr, h.imp_right fun h ↦ h.mono (tracked_mono hT hK)⟩

theorem spent_mono (hT : S ⊆ T) (hK : J ⊆ K) (p : Pool) : L.spent S J p ⊆ L.spent T K p :=
  Set.inter_subset_inter (tracked_mono hT hK) (revealed_mono hT p)

end Mono

/-! ## Unions -/

section Union

variable {L} {ι : Type*} (S T : Set Tx) (R : ι → Set Tx) (K : Set Nf) (p : Pool)

theorem received_union : L.received (S ∪ T) = L.received S ∪ L.received T := by
  ext n
  simp only [received, Set.mem_ofPred_eq, Set.mem_union, or_and_right, exists_or]

theorem revealed_union : L.revealed (S ∪ T) p = L.revealed S p ∪ L.revealed T p := by
  ext n
  simp only [revealed, Set.mem_ofPred_eq, Set.mem_union, or_and_right, exists_or]

theorem mem_revealed_iUnion {n : Nf} :
    n ∈ L.revealed (⋃ i, R i) p ↔ ∃ i, n ∈ L.revealed (R i) p := by
  simp only [revealed, Set.mem_ofPred_eq, Set.mem_iUnion]
  tauto

end Union

/-! ## Complete ledgers

When a transaction that creates a note for the wallet is always found on its own, the
note of a detected transaction is tracked, so its flag only depends on what is revealed. -/

/-- Whoever creates a note for the wallet is found. -/
def Complete (T : Set Tx) : Prop := ∀ t ∈ T, ∀ p, ∀ n ∈ L.notes t p, L.found t

section Complete

variable {L} {T : Set Tx} {K : Set Nf} {t : Tx} {p : Pool} {n : Nf}

theorem Complete.mono {S : Set Tx} (h : L.Complete T) (hS : S ⊆ T) : L.Complete S :=
  fun t ht ↦ h t (hS ht)

theorem Complete.mem_received (h : L.Complete T) (ht : t ∈ T) (hn : n ∈ L.notes t p) :
    n ∈ L.received T :=
  ⟨t, ht, h t ht p n hn, p, hn⟩

theorem Complete.mem_spent_iff (h : L.Complete T) (ht : t ∈ T) (hn : n ∈ L.notes t p)
    (q : Pool) : n ∈ L.spent T K q ↔ n ∈ L.revealed T q :=
  and_iff_right (Or.inr (h.mem_received ht hn))

end Complete

/-! ## Scans one after the other -/

/-- A note is only ever spent in its own pool. -/
def PoolScoped (T : Set Tx) : Prop :=
  ∀ t ∈ T, ∀ p q n, n ∈ L.notes t p → n ∈ L.revealed T q → p = q

theorem PoolScoped.mono {L : Ledger Tx Pool Nf} {S T : Set Tx} (h : L.PoolScoped T)
    (hS : S ⊆ T) : L.PoolScoped S :=
  fun t ht p q n hn hr ↦ h t (hS ht) p q n hn (revealed_mono hS q hr)

/-- In a complete and pool-scoped ledger, a nullifier is unspent when some note has it
that its own pool does not reveal. -/
theorem mem_unspent_iff {L : Ledger Tx Pool Nf} {T : Set Tx} (hc : L.Complete T)
    (hs : L.PoolScoped T) {n : Nf} :
    n ∈ L.unspent T ↔ ∃ t ∈ T, ∃ p, n ∈ L.notes t p ∧ n ∉ L.revealed T p := by
  constructor
  · rintro ⟨⟨t, ht, -, p, hn⟩, hr⟩
    exact ⟨t, ht, p, hn, hr p⟩
  · rintro ⟨t, ht, p, hn, hr⟩
    exact ⟨hc.mem_received ht hn, fun q hq ↦ hr (hs t ht p q n hn hq ▸ hq)⟩

/-- `T` comes after `S`: what `S` reveals is neither created nor revealed again in `T`,
and no note is spent outside its pool. -/
structure Sequential (S T : Set Tx) : Prop where
  once : ∀ p q n, n ∈ L.revealed S p → n ∉ L.revealed T q
  created : ∀ p n, n ∈ L.revealed S p → n ∉ L.received T
  samePool : L.PoolScoped (S ∪ T)

namespace Sequential

variable {L} {S T : Set Tx} (h : L.Sequential S T)
include h

/-- A transaction of the second part spends a received note exactly when it spends one
of its own part or one that the first part left unspent. -/
theorem spends_iff {t : Tx} (ht : t ∈ T) :
    L.Spends t (L.received (S ∪ T)) ↔ L.Spends t (L.tracked T (L.unspent S)) := by
  constructor
  · rintro ⟨p, n, hn, hr⟩
    refine ⟨p, n, hn, ?_⟩
    rw [received_union] at hr
    rcases hr with hS | hT
    · exact Or.inl ⟨hS, fun q hq ↦ h.once q p n hq ⟨t, ht, hn⟩⟩
    · exact Or.inr hT
  · intro hs
    refine hs.mono ?_
    rw [received_union]
    exact Set.union_subset_union (fun n hn ↦ hn.1) subset_rfl

/-- A transaction of the first part spends nothing that the second part receives. -/
theorem spends_left_iff {t : Tx} (ht : t ∈ S) :
    L.Spends t (L.received (S ∪ T)) ↔ L.Spends t (L.received S) := by
  constructor
  · rintro ⟨p, n, hn, hr⟩
    rw [received_union] at hr
    exact ⟨p, n, hn, hr.resolve_right (h.created p n ⟨t, ht, hn⟩)⟩
  · exact fun hs ↦ hs.mono (received_mono Set.subset_union_left)

/-- The detected transactions compose. -/
theorem detected_union :
    L.detected (S ∪ T) ∅ = L.detected S ∅ ∪ L.detected T (L.unspent S) := by
  ext t
  simp only [detected, Set.mem_ofPred_eq, Set.mem_union, tracked, Set.empty_union]
  constructor
  · rintro ⟨ht | ht, hr, hd⟩
    · exact Or.inl ⟨ht, hr, hd.imp_right (h.spends_left_iff ht).mp⟩
    · exact Or.inr ⟨ht, hr, hd.imp_right (h.spends_iff ht).mp⟩
  · rintro (⟨ht, hr, hd⟩ | ⟨ht, hr, hd⟩)
    · exact ⟨Or.inl ht, hr, hd.imp_right (h.spends_left_iff ht).mpr⟩
    · exact ⟨Or.inr ht, hr, hd.imp_right (h.spends_iff ht).mpr⟩

/-- A note of the first part is spent in the whole when the first part reveals it, or
when it was left unspent and the second part reveals it, in whichever pool. -/
theorem revealed_left_iff (hc : L.Complete S) {t : Tx} (ht : t ∈ S) {p : Pool} {n : Nf}
    (hn : n ∈ L.notes t p) : n ∈ L.revealed (S ∪ T) p ↔
      n ∈ L.revealed S p ∨ n ∈ L.unspent S ∧ ∃ q, n ∈ L.revealed T q := by
  rw [revealed_union]
  constructor
  · rintro (hS | hT)
    · exact Or.inl hS
    · exact Or.inr ⟨⟨hc.mem_received ht hn, fun q hq ↦ h.once q p n hq hT⟩, p, hT⟩
  · rintro (hS | ⟨-, q, hq⟩)
    · exact Or.inl hS
    · exact Or.inr (h.samePool t (Or.inl ht) p q n hn
        (revealed_mono Set.subset_union_right q hq) ▸ hq)

/-- A note of the second part is spent in the whole when the second part reveals it, in
whichever pool. -/
theorem revealed_right_iff (hc : L.Complete T) {t : Tx} (ht : t ∈ T) {p : Pool} {n : Nf}
    (hn : n ∈ L.notes t p) : n ∈ L.revealed (S ∪ T) p ↔
      n ∈ L.revealed T p ∨ n ∈ L.unspent S ∧ ∃ q, n ∈ L.revealed T q := by
  rw [revealed_union]
  constructor
  · rintro (hS | hT)
    · exact absurd (hc.mem_received ht hn) (h.created p n hS)
    · exact Or.inl hT
  · rintro (hT | ⟨-, q, hq⟩)
    · exact Or.inr hT
    · exact Or.inr (h.samePool t (Or.inr ht) p q n hn
        (revealed_mono Set.subset_union_right q hq) ▸ hq)

end Sequential

/-! ## Scans that do not know of each other -/

section Split

variable {ι : Type*} (R : ι → Set Tx) (K : Set Nf)

/-- No transaction of a part that is not found there is detected only for what another
part received. -/
def SpendersKept : Prop := ∀ i, ∀ t ∈ R i, L.readable t → ¬ L.found t →
  L.Spends t (L.tracked (⋃ j, R j) K) → L.Spends t (L.tracked (R i) K)

/-- A note of a transaction that its part detects, tracked and revealed in the whole, is
tracked and revealed in that part. -/
def FlagsKept : Prop := ∀ i, ∀ t ∈ L.detected (R i) K, ∀ p, ∀ n ∈ L.notes t p,
  n ∈ L.spent (⋃ j, R j) K p → n ∈ L.spent (R i) K p

variable {L R K}

/-- Separate scans detect together what one scan of the whole detects, exactly when no
spending transaction is cut from the note it spends. -/
theorem detected_iUnion_iff (hR : ∀ i j t, t ∈ R i → t ∈ R j → i = j) :
    (⋃ i, L.detected (R i) K) = L.detected (⋃ i, R i) K ↔ L.SpendersKept R K := by
  constructor
  · intro h i t ht hr hf hs
    have hd : t ∈ ⋃ j, L.detected (R j) K :=
      h ▸ ⟨Set.mem_iUnion_of_mem i ht, hr, Or.inr hs⟩
    obtain ⟨j, htj, -, hdj⟩ := Set.mem_iUnion.mp hd
    obtain rfl := hR i j t ht htj
    exact hdj.resolve_left hf
  · intro h
    refine Set.Subset.antisymm (Set.iUnion_subset fun i ↦
      detected_mono (Set.subset_iUnion R i) subset_rfl) ?_
    rintro t ⟨ht, hr, hd⟩
    obtain ⟨i, hi⟩ := Set.mem_iUnion.mp ht
    by_cases hf : L.found t
    · exact Set.mem_iUnion_of_mem i ⟨hi, hr, Or.inl hf⟩
    · exact Set.mem_iUnion_of_mem i ⟨hi, hr, Or.inr (h i t hi hr hf (hd.resolve_left hf))⟩

end Split

end Ledger

end LedgerZcash
