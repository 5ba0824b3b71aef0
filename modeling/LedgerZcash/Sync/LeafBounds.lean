import LedgerZcash.Sync.Witness

/-!
# The bounds of a shard's leaves

`shardLeafBounds` cuts the leaves of a shard out of the commitments that were fetched, and its
arguments come from the server.  Here its `u64` arithmetic is checked: an overflow is a panic, as
in a build with overflow checks.  Of the four operations only the last subtraction can fail, for
the open shard of a tree that ends before the scan begins; everything else that does not fit
together is an error (`leafBounds_iff`).  Where nothing underflows, the checked bounds are those
of the model that wraps around (`shardLeafBounds_eq_checked`).  A shard that starts below the
tree's size does not underflow, so the orchestrator's bounds are the exact ones
(`shardLeafBounds_eq`).
-/

namespace LedgerZcash

open Collect

/-! ## The checked bounds -/

def leafRangeError (shardIdx lo hi rawLen : Nat) : Failure :=
  .error ("shard " ++ shardIdx.repr ++ ": leaf slice [" ++ lo.repr ++ ", " ++ hi.repr ++
    ") out of range for " ++ rawLen.repr ++ " fetched commitments")

/-- `end_pos`: the frontier shard ends with the tree. -/
def endPosChecked (shardIdx frontierShardIndex : UInt32) (anchorTotalLeaves startPos : Nat) :
    Except Failure Nat :=
  if shardIdx < frontierShardIndex then addU64 startPos shardSize else pure anchorTotalLeaves

/-- `shard_leaf_bounds`, with overflow checks. -/
def shardLeafBoundsChecked (shardIdx frontierShardIndex : UInt32)
    (anchorTotalLeaves baseOffset rawLen : Nat) : Except Failure (Nat × Nat) := do
  let startPos ← mulU64 shardIdx.toNat shardSize
  let endPos ← endPosChecked shardIdx frontierShardIndex anchorTotalLeaves startPos
  if startPos < baseOffset then
    throw (.error ("shard " ++ shardIdx.toNat.repr ++ ": scan base offset " ++ baseOffset.repr ++
      " is past shard start " ++ startPos.repr))
  else do
    let lo ← subU64 startPos baseOffset
    let hi ← subU64 endPos baseOffset
    if hi < lo ∨ rawLen < hi then throw (leafRangeError shardIdx.toNat lo hi rawLen)
    else pure (lo, hi)

section Bounds

variable {s f : UInt32} {total base rawLen lo hi : Nat}

/-- The position a shard starts at. -/
def shardStart (s : UInt32) : Nat := s.toNat * shardSize

/-- The positions of a shard, by its index and that of the frontier shard. -/
abbrev shardStop (s f : UInt32) (total : Nat) : Nat := shardEnd s.toNat f.toNat total

theorem shardStart_add_lt (s : UInt32) : shardStart s + shardSize < u64Size := by
  have hs := s.toNat_lt
  rw [shardStart, ← Nat.succ_mul]
  exact lt_of_le_of_lt (Nat.mul_le_mul_right shardSize (Nat.succ_le_of_lt hs)) (by decide)

theorem shardStop_of_lt (h : s < f) : shardStop s f total = shardStart s + shardSize :=
  if_pos (UInt32.lt_iff_toNat_lt.mp h)

theorem shardStop_of_not_lt (h : ¬s < f) : shardStop s f total = total :=
  if_neg (mt UInt32.lt_iff_toNat_lt.mpr h)

/-- The positions themselves never overflow. -/
theorem shardLeafBoundsChecked_eq (s f : UInt32) (total base rawLen : Nat) :
    shardLeafBoundsChecked s f total base rawLen =
    if shardStart s < base then
      .error (.error ("shard " ++ s.toNat.repr ++ ": scan base offset " ++ base.repr ++
        " is past shard start " ++ (shardStart s).repr))
    else subU64 (shardStop s f total) base >>= fun hi ↦
      if hi < shardStart s - base ∨ rawLen < hi then
        .error (leafRangeError s.toNat (shardStart s - base) hi rawLen)
      else .ok (shardStart s - base, hi) := by
  have hstart : mulU64 s.toNat shardSize = .ok (shardStart s) :=
    mulU64_of_lt ((Nat.le_add_right _ _).trans_lt (shardStart_add_lt s))
  have hstop : endPosChecked s f total (shardStart s) = .ok (shardStop s f total) := by
    rw [endPosChecked]
    split
    · rename_i hlt
      rw [shardStop_of_lt hlt, addU64_of_lt (shardStart_add_lt s)]
    · rename_i hnlt
      rw [shardStop_of_not_lt hnlt]
      rfl
  rw [shardLeafBoundsChecked, hstart, ok_bind, hstop, ok_bind]
  split
  · rfl
  · rename_i hbase
    rw [subU64_of_le (Nat.not_lt.mp hbase), ok_bind]
    rfl

/-- The end of the shard is not before the offset it is taken relative to. -/
def NoUnderflow (s f : UInt32) (total base : Nat) : Prop :=
  s < f ∨ shardStart s < base ∨ base ≤ total

theorem not_noUnderflow_iff : ¬NoUnderflow s f total base ↔
    ¬s < f ∧ base ≤ shardStart s ∧ total < base := by
  rw [NoUnderflow, not_or, not_or, Nat.not_lt, Nat.not_le]

theorem NoUnderflow.le_stop (h : NoUnderflow s f total base) (hbase : base ≤ shardStart s) :
    base ≤ shardStop s f total := by
  by_cases hlt : s < f
  · rw [shardStop_of_lt hlt]
    exact hbase.trans (Nat.le_add_right _ _)
  · rw [shardStop_of_not_lt hlt]
    rcases h with h | h | h
    · exact absurd h hlt
    · exact absurd h (Nat.not_lt.mpr hbase)
    · exact h

/-- The last subtraction is the one that can underflow. -/
theorem shardLeafBoundsChecked_panic (h : ¬NoUnderflow s f total base) (rawLen : Nat) :
    shardLeafBoundsChecked s f total base rawLen = .error .panic := by
  obtain ⟨hopen, hbase, htotal⟩ := not_noUnderflow_iff.mp h
  rw [shardLeafBoundsChecked_eq, if_neg (Nat.not_lt.mpr hbase), shardStop_of_not_lt hopen,
    subU64_of_lt htotal]
  rfl

/-- Where nothing underflows, and the tree size is a `u64`, the bounds are those of the model
whose subtraction wraps around. -/
theorem shardLeafBounds_eq_checked (h : NoUnderflow s f total base) (htotal : total < u64Size) :
    shardLeafBounds s.toNat f.toNat total base rawLen =
      shardLeafBoundsChecked s f total base rawLen := by
  rw [shardLeafBoundsChecked_eq]
  by_cases hbase : shardStart s < base
  · rw [if_pos hbase]
    exact if_pos hbase
  · have hstop := h.le_stop (Nat.not_lt.mp hbase)
    have hlt : shardStop s f total < u64Size := by
      by_cases hopen : s < f
      · rw [shardStop_of_lt hopen]
        exact shardStart_add_lt s
      · rwa [shardStop_of_not_lt hopen]
    have hhi : (shardStop s f total + u64Size - base) % u64Size = shardStop s f total - base := by
      rw [Nat.sub_add_comm hstop, Nat.add_mod_right]
      exact Nat.mod_eq_of_lt ((Nat.sub_le _ _).trans_lt hlt)
    rw [if_neg hbase, subU64_of_le hstop, ok_bind, ← hhi]
    exact if_neg hbase

/-- A shard that starts below the tree's size does not underflow. -/
theorem noUnderflow_of_started (h : shardStart s < total) : NoUnderflow s f total base := by
  by_cases hbase : shardStart s < base
  · exact .inr (.inl hbase)
  · exact .inr (.inr ((Nat.not_lt.mp hbase).trans h.le))

/-- The bounds are returned exactly for the answers that fit together, and are then the shard's
positions relative to the offset, inside what was fetched; nothing overflows. -/
structure BoundsExact (s f : UInt32) (total base rawLen : Nat) : Prop where
  returns_iff : (∃ lo hi, shardLeafBoundsChecked s f total base rawLen = .ok (lo, hi)) ↔
    base ≤ shardStart s ∧ shardStart s ≤ shardStop s f total ∧
      shardStop s f total - base ≤ rawLen
  positions : ∀ lo hi, shardLeafBoundsChecked s f total base rawLen = .ok (lo, hi) →
    base + lo = shardStart s ∧ base + hi = shardStop s f total ∧ lo ≤ hi ∧ hi ≤ rawLen
  noPanic : shardLeafBoundsChecked s f total base rawLen ≠ .error .panic

/-- An error is right when the answers do not fit together. -/
theorem BoundsExact.of_error {msg : String}
    (h : shardLeafBoundsChecked s f total base rawLen = .error (.error msg))
    (hunfit : ¬(base ≤ shardStart s ∧ shardStart s ≤ shardStop s f total ∧
      shardStop s f total - base ≤ rawLen)) : BoundsExact s f total base rawLen where
  returns_iff := by
    refine iff_of_false ?_ hunfit
    rintro ⟨lo, hi, hok⟩
    cases h.symm.trans hok
  positions lo hi hok := nomatch h.symm.trans hok
  noPanic hpanic := nomatch h.symm.trans hpanic

theorem NoUnderflow.boundsExact (h : NoUnderflow s f total base) :
    BoundsExact s f total base rawLen := by
  have heq := shardLeafBoundsChecked_eq s f total base rawLen
  by_cases hbase : shardStart s < base
  · rw [if_pos hbase] at heq
    exact .of_error heq fun hfit ↦ Nat.not_lt.mpr hfit.1 hbase
  · have hle := Nat.not_lt.mp hbase
    have hstop := h.le_stop hle
    rw [if_neg hbase, subU64_of_le hstop, ok_bind] at heq
    by_cases hrange : shardStop s f total - base < shardStart s - base ∨
        rawLen < shardStop s f total - base
    · rw [if_pos hrange] at heq
      refine .of_error heq fun ⟨_, hordered, hfetched⟩ ↦ ?_
      omega
    · rw [if_neg hrange] at heq
      rw [not_or, Nat.not_lt, Nat.not_lt] at hrange
      refine ⟨iff_of_true ⟨_, _, heq⟩ ⟨hle, by omega, hrange.2⟩, ?_, ?_⟩
      · intro lo hi hok
        cases heq.symm.trans hok
        exact ⟨Nat.add_sub_cancel' hle, Nat.add_sub_cancel' hstop, hrange⟩
      · intro hpanic
        cases heq.symm.trans hpanic

/-- The bounds of a shard that starts below the tree's size, when its whole extent was fetched. -/
theorem shardLeafBounds_eq (hstarted : shardStart s < total) (htotal : total < u64Size)
    (hbase : base ≤ shardStart s) (hraw : shardStop s f total ≤ base + rawLen) :
    shardLeafBounds s.toNat f.toNat total base rawLen =
      .ok (shardStart s - base, shardStop s f total - base) := by
  have hfree : NoUnderflow s f total base := noUnderflow_of_started hstarted
  have hexact : BoundsExact s f total base rawLen := hfree.boundsExact
  have hordered : shardStart s ≤ shardStop s f total := by
    by_cases hopen : s < f
    · rw [shardStop_of_lt hopen]
      exact Nat.le_add_right _ _
    · rw [shardStop_of_not_lt hopen]
      exact hstarted.le
  obtain ⟨lo, hi, hok⟩ := hexact.returns_iff.mpr ⟨hbase, hordered, by omega⟩
  obtain ⟨hlo, hhi, -, -⟩ := hexact.positions lo hi hok
  rw [shardLeafBounds_eq_checked hfree htotal, hok, ← hlo, ← hhi, Nat.add_sub_cancel_left,
    Nat.add_sub_cancel_left]

/-- The bounds are exact unless the shard is open, the scan begins at or before it, and the tree
ends before the scan begins. -/
theorem leafBounds_iff (s f : UInt32) (total base rawLen : Nat) :
    BoundsExact s f total base rawLen ↔ s < f ∨ shardStart s < base ∨ base ≤ total := by
  constructor
  · intro h
    by_contra hnot
    exact h.noPanic (shardLeafBoundsChecked_panic hnot rawLen)
  · intro h
    exact NoUnderflow.boundsExact h

/-- The open shard 1 of a tree with five leaves, scanned from position 10 on. -/
theorem short_tree_underflows : shardLeafBoundsChecked 1 1 5 10 0 = .error .panic ∧
    ¬BoundsExact 1 1 5 10 0 := by
  have hunderflow : ¬NoUnderflow 1 1 5 10 :=
    not_noUnderflow_iff.mpr ⟨by decide, by decide, by decide⟩
  have hpanic := shardLeafBoundsChecked_panic hunderflow 0
  exact ⟨hpanic, fun h ↦ h.noPanic hpanic⟩

end Bounds

end LedgerZcash
