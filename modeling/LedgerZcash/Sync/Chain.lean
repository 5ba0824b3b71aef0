import LedgerZcash.Sync.Detection
import Mathlib.Data.Set.Lattice

/-!
# A chain, its ranges, and the servers that follow it

The blocks of a chain are ascending in height.  A truthful server streams the slice of
the chain that a request names; consecutive ranges cut a slice into slices.
-/

namespace LedgerZcash

/-- The blocks of a chain, lowest first. -/
structure Chain where
  blocks : List Proto.CompactBlock
  ascending : blocks.Pairwise fun b b' ↦ b.height < b'.height
  bounded : ∀ b ∈ blocks, b.height < u32Size
  unique : UniqueTxids blocks

namespace Chain

variable (c : Chain)

/-- The blocks of an inclusive range of heights. -/
def slice (s e : Nat) : List Proto.CompactBlock :=
  c.blocks.filter fun b ↦ s ≤ b.height ∧ b.height ≤ e

/-- A server that streams the slices of the chain. -/
def Serves (srv : Server) : Prop :=
  ∀ s e, srv.getBlockRange s e = .ok ((c.slice s e).map .ok)

variable {c}

theorem mem_slice {s e : Nat} {b : Proto.CompactBlock} :
    b ∈ c.slice s e ↔ b ∈ c.blocks ∧ s ≤ b.height ∧ b.height ≤ e := by
  simp [slice]

theorem mem_range_slice {s e : Nat} {l : Located} :
    l ∈ range (c.slice s e) ↔ (l.block ∈ c.blocks ∧ l.tx ∈ l.block.vtx) ∧
      s ≤ l.block.height ∧ l.block.height ≤ e := by
  show l ∈ located (c.slice s e) ↔ _
  rw [mem_located, mem_slice, and_right_comm]

theorem range_slice_mono {s s' e e' : Nat} (hs : s ≤ s') (he : e' ≤ e) :
    range (c.slice s' e') ⊆ range (c.slice s e) := by
  intro l hl
  obtain ⟨hmem, h⟩ := mem_range_slice.mp hl
  exact mem_range_slice.mpr ⟨hmem, by omega⟩

/-- The transactions of a chain from a height on and below another. -/
def below (c : Chain) (a s : Nat) : Set Located :=
  {l | (l.block ∈ c.blocks ∧ l.tx ∈ l.block.vtx) ∧ a ≤ l.block.height ∧ l.block.height < s}

theorem below_self (a : Nat) : c.below a a = ∅ := by
  ext l
  simp only [below, Set.mem_ofPred_eq, Set.mem_empty_iff_false, iff_false, not_and]
  omega

theorem below_succ (a e : Nat) : c.below a (e + 1) = range (c.slice a e) := by
  ext l
  rw [mem_range_slice]
  simp only [below, Set.mem_ofPred_eq, Nat.lt_succ_iff]

/-- A slice extends what lies below it. -/
theorem below_union_slice {a s m : Nat} (ha : a ≤ s) (hs : s ≤ m) :
    c.below a s ∪ range (c.slice s m) = c.below a (m + 1) := by
  ext l
  simp only [Set.mem_union, mem_range_slice, below, Set.mem_ofPred_eq]
  rw [← and_or_left]
  refine and_congr_right fun _ ↦ ?_
  omega

theorem slice_sublist {s s' e e' : Nat} (hs : s ≤ s') (he : e' ≤ e) :
    (c.slice s' e').Sublist (c.slice s e) := by
  have h : c.slice s' e' = (c.slice s e).filter fun b ↦ s' ≤ b.height ∧ b.height ≤ e' := by
    simp only [slice, List.filter_filter]
    refine List.filter_congr fun b _ ↦ ?_
    rw [← Bool.decide_and, decide_eq_decide]
    omega
  rw [h]
  exact List.filter_sublist

theorem located_sublist {bs bs' : List Proto.CompactBlock} (h : bs.Sublist bs') :
    (located bs).Sublist (located bs') := by
  induction h with
  | slnil => exact List.Sublist.refl _
  | cons b _ ih => exact ih.trans (List.sublist_append_right _ _)
  | cons_cons b _ ih => exact (List.Sublist.refl _).append ih

theorem uniqueTxids_of_sublist {bs bs' : List Proto.CompactBlock} (h : bs.Sublist bs')
    (hu : UniqueTxids bs') : UniqueTxids bs :=
  hu.sublist ((located_sublist h).map _)

theorem uniqueTxids_slice (s e : Nat) : UniqueTxids (c.slice s e) :=
  uniqueTxids_of_sublist List.filter_sublist c.unique

/-- The transactions of a slice are ascending in height. -/
theorem located_slice_ascending (s e : Nat) :
    (located (c.slice s e)).Pairwise fun l l' ↦ l.block.height ≤ l'.block.height := by
  rw [located, List.pairwise_flatMap]
  refine ⟨fun b _ ↦ ?_, (c.ascending.filter _).imp fun {b b'} hlt ↦ ?_⟩
  · exact List.pairwise_map.mpr (List.pairwise_of_forall fun _ _ ↦ le_refl _)
  · rintro l hl l' hl'
    obtain ⟨_, -, rfl⟩ := List.mem_map.mp hl
    obtain ⟨_, -, rfl⟩ := List.mem_map.mp hl'
    exact le_of_lt hlt

end Chain

/-- The chain of the small world. -/
def sampleChain : Chain where
  blocks := sampleBlocks
  ascending := by decide
  bounded := by decide
  unique := by unfold UniqueTxids; decide +kernel

/-- In a list that ascends by a key, a pairwise relation holds between elements of
different keys, the lower one first. -/
theorem pairwise_of_key_lt {α : Type} {key : α → Nat} {R : α → α → Prop} {l : List α}
    (hkey : l.Pairwise fun a b ↦ key a ≤ key b) (h : l.Pairwise R) {a b : α} (ha : a ∈ l)
    (hb : b ∈ l) (hlt : key a < key b) : R a b := by
  induction l with
  | nil => exact absurd ha List.not_mem_nil
  | cons c cs ih =>
      obtain ⟨hc, hkey⟩ := List.pairwise_cons.mp hkey
      obtain ⟨hR, h⟩ := List.pairwise_cons.mp h
      rcases List.mem_cons.mp ha with rfl | ha'
      · rcases List.mem_cons.mp hb with rfl | hb'
        · exact absurd hlt (lt_irrefl _)
        · exact hR b hb'
      · rcases List.mem_cons.mp hb with rfl | hb'
        · exact absurd hlt (Nat.not_lt.mpr (hc a ha'))
        · exact ih hkey h ha' hb'

/-- A range of block heights. -/
def natRange (r : UInt32 × UInt32) : Nat × Nat := (r.1.toNat, r.2.toNat)

end LedgerZcash
