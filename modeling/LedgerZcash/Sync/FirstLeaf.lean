import LedgerZcash.Sync.Witness
import Mathlib.Order.Bounds.Basic
import Mathlib.Order.Monotone.Defs

/-!
# The first leaf of a pool

`findPoolActivationHeight` looks for the first block with a leaf of the pool by bisection on the
tree size.  For a size that does not decrease, the search keeps "no leaf below `low`, a leaf at
`high`" (`LeafBetween`) until the two meet; in between no `u32` operation overflows, so the
search on `u32` is that on natural numbers (`searchFirstLeafU32_eq`).  A scan that starts at the
height found has no leaf before it: the base offset of shard 0 is zero (`firstLeaf_exact`).
-/

namespace LedgerZcash

open Hex Collect

/-! ## The search -/

section Search

variable {S : ShardTrees} {srv : Server} {pool : Pool} {size : Nat → Nat} {low high : Nat}

/-- The first height with a leaf is between `low` and `high`. -/
structure LeafBetween (size : Nat → Nat) (low high : Nat) : Prop where
  below : ∀ h < low, size h = 0
  at_high : 0 < size high

/-- One round of the search. -/
theorem searchFirstLeaf_of_lt (h : low < high) {mid : Nat} (hmid : mid = low + (high - low) / 2) :
    searchFirstLeaf S srv pool low high = treeSizeAt S srv pool mid >>= fun size ↦
      if size = 0 then searchFirstLeaf S srv pool (mid + 1) high
      else searchFirstLeaf S srv pool low mid := by
  rw [searchFirstLeaf, if_pos h, hmid]

namespace LeafBetween

theorem le (h : LeafBetween size low high) : low ≤ high := by
  by_contra hlt
  exact absurd (h.below high (Nat.not_le.mp hlt)) (Nat.pos_iff_ne_zero.mp h.at_high)

/-- No leaf at a height: go on above it. -/
theorem raise (hmono : MonotoneOn size (Set.Iic high)) (h : LeafBetween size low high) {mid : Nat}
    (hmid : mid ≤ high) (hzero : size mid = 0) : LeafBetween size (mid + 1) high where
  below n hn := by
    have hle : n ≤ mid := Nat.le_of_lt_succ hn
    exact Nat.eq_zero_of_le_zero (hzero ▸ hmono (hle.trans hmid) hmid hle)
  at_high := h.at_high

/-- A leaf at a height: go on below it. -/
theorem lower (h : LeafBetween size low high) {mid : Nat} (hmid : size mid ≠ 0) :
    LeafBetween size low mid where
  below := h.below
  at_high := Nat.pos_of_ne_zero hmid

theorem isLeast (h : LeafBetween size low low) : IsLeast {n | 0 < size n} low :=
  ⟨h.at_high, fun n hn ↦ by
    by_contra hlt
    exact absurd (h.below n (Nat.not_le.mp hlt)) (Nat.pos_iff_ne_zero.mp hn)⟩

end LeafBetween

/-- The search ends where its bounds meet. -/
theorem searchFirstLeaf_of_between
    (hsize : ∀ h ≤ high, treeSizeAt S srv pool h = .ok (size h))
    (hmono : MonotoneOn size (Set.Iic high)) (hbetween : LeafBetween size low high) :
    ∃ h ≤ high, searchFirstLeaf S srv pool low high = .ok h ∧ IsLeast {n | 0 < size n} h := by
  fun_induction searchFirstLeaf S srv pool low high with
  | case1 low high hlt mid ihRaise ihLower =>
      have hmid : mid < high := by
        simp only [mid]
        omega
      rw [hsize mid hmid.le]
      show ∃ h ≤ high, (if size mid = 0 then searchFirstLeaf S srv pool (mid + 1) high
        else searchFirstLeaf S srv pool low mid) = .ok h ∧ _
      split
      · rename_i hzero
        exact ihRaise hsize hmono (hbetween.raise hmono hmid.le hzero)
      · rename_i hne
        obtain ⟨h, hle, hfound⟩ := ihLower (fun h hh ↦ hsize h (hh.trans hmid.le))
          (hmono.mono (Set.Iic_subset_Iic.mpr hmid.le)) (hbetween.lower hne)
        exact ⟨h, hle.trans hmid.le, hfound⟩
  | case2 low high hge =>
      obtain rfl : low = high := le_antisymm hbetween.le (Nat.not_lt.mp hge)
      exact ⟨low, le_rfl, rfl, hbetween.isLeast⟩

/-- The first leaf of a pool that has one. -/
theorem findPoolActivationHeight_of_mono {anchor : Nat}
    (hsize : ∀ h ≤ anchor, treeSizeAt S srv pool h = .ok (size h))
    (hmono : MonotoneOn size (Set.Iic anchor)) (hpos : 0 < size anchor) :
    ∃ h ≤ anchor, findPoolActivationHeight S srv pool anchor = .ok h ∧
      IsLeast {n | 0 < size n} h := by
  have hgenesis : size 0 = 0 := Except.ok.inj (hsize 0 (Nat.zero_le _)).symm
  have hbetween : LeafBetween size 1 anchor := ⟨fun h hh ↦ Nat.lt_one_iff.mp hh ▸ hgenesis, hpos⟩
  obtain ⟨h, hle, hsearch, hleast⟩ := searchFirstLeaf_of_between hsize hmono hbetween
  refine ⟨h, hle, bind_eq_ok.mpr ⟨h, hsearch, bind_eq_ok.mpr ⟨_, hsize h hle, ?_⟩⟩, hleast⟩
  rw [if_neg (Nat.pos_iff_ne_zero.mp hleast.1)]
  rfl

end Search

/-! ## Overflow -/

section Overflow

variable (S : ShardTrees) (srv : Server) (pool : Pool)

/-- `low + (high - low) / 2`, with overflow checks. -/
def midU32 (low high : UInt32) : Except Failure UInt32 := do
  let width ← subU32 high low
  addU32 low (width / 2)

theorem midU32_eq_ok {low high mid : UInt32} (hlt : low < high) :
    midU32 low high = .ok mid ↔ mid.toNat = low.toNat + (high.toNat - low.toNat) / 2 := by
  have hle : low ≤ high := UInt32.le_of_lt hlt
  have hwidth : subU32 high low = .ok (high - low) := if_pos hle
  rw [midU32, hwidth, ok_bind, addU32_eq_ok, UInt32.toNat_div, UInt32.toNat_sub_of_le _ _ hle]
  rfl

/-- The search of `findPoolActivationHeight` on `u32`, with overflow checks. -/
def searchFirstLeafU32 (low high : UInt32) : Except Failure UInt32 :=
  if _hlt : low < high then
    match _hmid : midU32 low high with
    | .error err => .error err
    | .ok mid => treeSizeAt S srv pool mid.toNat >>= fun size ↦
        if size = 0 then
          match _hnext : addU32 mid 1 with
          | .error err => .error err
          | .ok next => searchFirstLeafU32 next high
        else searchFirstLeafU32 low mid
  else pure low
termination_by high.toNat - low.toNat
decreasing_by
  all_goals
    have hmid := (midU32_eq_ok ‹low < high›).mp _hmid
    have hlt := UInt32.lt_iff_toNat_lt.mp ‹low < high›
  · have hnext := addU32_eq_ok.mp _hnext
    rw [UInt32.toNat_one] at hnext
    omega
  · omega

/-- `find_pool_activation_height`, with overflow checks. -/
def findPoolActivationHeightU32 (anchorHeight : UInt32) : Except Failure UInt32 := do
  let low ← searchFirstLeafU32 S srv pool 1 anchorHeight
  let size ← treeSizeAt S srv pool low.toNat
  if size = 0 then
    throw (.error ("find_pool_activation_height: pool " ++ pool.debug ++
      " has no leaves at or before anchor " ++ anchorHeight.toNat.repr))
  else pure low

variable {S srv pool} {low high mid next : UInt32}

theorem midU32_of_lt (hlt : low < high) : ∃ mid, midU32 low high = .ok mid ∧
    mid.toNat = low.toNat + (high.toNat - low.toNat) / 2 ∧ low.toNat ≤ mid.toNat ∧
      mid.toNat < high.toNat := by
  have hlt' := UInt32.lt_iff_toNat_lt.mp hlt
  have hbound : low.toNat + (high.toNat - low.toNat) / 2 < UInt32.size :=
    lt_of_le_of_lt (by omega) high.toNat_lt
  have hmid : (UInt32.ofNat (low.toNat + (high.toNat - low.toNat) / 2)).toNat =
      low.toNat + (high.toNat - low.toNat) / 2 := UInt32.toNat_ofNat_of_lt' hbound
  exact ⟨_, (midU32_eq_ok hlt).mpr hmid, hmid, by omega, by omega⟩

/-- One round of the search. -/
theorem searchFirstLeafU32_of_lt (hlt : low < high) (hmid : midU32 low high = .ok mid)
    (hnext : addU32 mid 1 = .ok next) :
    searchFirstLeafU32 S srv pool low high = treeSizeAt S srv pool mid.toNat >>= fun size ↦
      if size = 0 then searchFirstLeafU32 S srv pool next high
      else searchFirstLeafU32 S srv pool low mid := by
  rw [searchFirstLeafU32, dif_pos hlt]
  split
  · rename_i err herr
    cases hmid.symm.trans herr
  · rename_i mid' hmid'
    cases hmid.symm.trans hmid'
    refine bind_congr fun size ↦ ?_
    split
    · split
      · rename_i err herr
        cases hnext.symm.trans herr
      · rename_i next' hnext'
        cases hnext.symm.trans hnext'
        rfl
    · rfl

variable (S srv pool) in
/-- No operation of the search overflows: it is the search on natural numbers. -/
theorem searchFirstLeafU32_eq (low high : UInt32) :
    (searchFirstLeafU32 S srv pool low high).map UInt32.toNat =
      searchFirstLeaf S srv pool low.toNat high.toNat := by
  induction hn : high.toNat - low.toNat using Nat.strong_induction_on generalizing low high with
  | _ n ih =>
      by_cases hlt : low < high
      · have hlt' := UInt32.lt_iff_toNat_lt.mp hlt
        obtain ⟨mid, hmid, hmid', hlow, hhigh⟩ := midU32_of_lt hlt
        have hone : mid.toNat + (1 : UInt32).toNat < u32Size :=
          lt_of_le_of_lt (Nat.succ_le_of_lt hhigh) high.toNat_lt
        have hnext : addU32 mid 1 = .ok (mid + 1) := if_pos hone
        have hnext' : (mid + 1).toNat = mid.toNat + 1 := addU32_eq_ok.mp hnext
        rw [searchFirstLeafU32_of_lt hlt hmid hnext, searchFirstLeaf_of_lt hlt' hmid']
        cases treeSizeAt S srv pool mid.toNat with
        | error err => rfl
        | ok size =>
            rw [ok_bind, ok_bind]
            split
            · rw [ih _ (by omega) (mid + 1) high rfl, hnext']
            · exact ih _ (by omega) low mid rfl
      · rw [searchFirstLeafU32, dif_neg hlt, searchFirstLeaf,
          if_neg (mt UInt32.lt_iff_toNat_lt.mpr hlt)]
        rfl

variable (S srv pool) in
theorem findPoolActivationHeightU32_eq (anchor : UInt32) :
    (findPoolActivationHeightU32 S srv pool anchor).map UInt32.toNat =
      findPoolActivationHeight S srv pool anchor.toNat := by
  have hsearch := searchFirstLeafU32_eq S srv pool 1 anchor
  rw [UInt32.toNat_one] at hsearch
  rw [findPoolActivationHeightU32, findPoolActivationHeight, ← hsearch]
  cases searchFirstLeafU32 S srv pool 1 anchor with
  | error err => rfl
  | ok low =>
      show (treeSizeAt S srv pool low.toNat >>= _).map UInt32.toNat =
        treeSizeAt S srv pool low.toNat >>= _
      cases treeSizeAt S srv pool low.toNat with
      | error err => rfl
      | ok size =>
          rw [ok_bind, ok_bind]
          split
          · rfl
          · rfl

end Overflow

/-! ## Shard 0 -/

section ShardZero

variable {S : ShardTrees} {srv : Server} {pool : Pool} {size : Nat → Nat}

/-- The leaves of shard 0, from the pool's first leaf on. -/
theorem fetchShard_zero {roots : List Proto.SubtreeRoot} {anchorHeight stop h base : Nat}
    (hstop : shardEndHeight roots anchorHeight 0 = stop)
    (hfind : findPoolActivationHeight S srv pool stop = .ok h)
    (hbase : treeSizeAt S srv pool (h - 1) = .ok base) (total : Nat) :
    fetchShard S srv pool roots anchorHeight total 0 = (do
      checkFirstLeafScanWidth pool h stop
      let raw ← collectCmxs srv pool h stop
      let (lo, hi) ← shardLeafBounds 0 (asU32 roots.length) total base raw.length
      pure { shardIndex := 0, cmxs := (raw.take hi).drop lo }) := by
  have hstart : shardStartHeight S srv pool roots stop 0 =
      checkFirstLeafScanWidth pool h stop >>= fun _ ↦ pure h := by
    rw [shardStartHeight, if_pos rfl, hfind, ok_bind]
  rw [fetchShard, hstop, hstart, bind_assoc]
  refine bind_congr fun _ ↦ ?_
  rw [pure_bind, hbase, ok_bind]

/-- For a tree size that does not decrease and is positive at the anchor, the search ends without
overflow at the first height with a leaf.  There is none before it, and the leaves of shard 0 are
cut with a base offset of zero. -/
theorem firstLeaf_exact (S : ShardTrees) (srv : Server) (pool : Pool) (size : Nat → Nat)
    (anchor : UInt32) (hsize : ∀ h ≤ anchor.toNat, treeSizeAt S srv pool h = .ok (size h))
    (hmono : MonotoneOn size (Set.Iic anchor.toNat)) (hpos : 0 < size anchor.toNat) :
    ∃ h : UInt32, findPoolActivationHeightU32 S srv pool anchor = .ok h ∧
      IsLeast {n | 1 ≤ n ∧ 0 < size n} h.toNat ∧ size (h.toNat - 1) = 0 ∧
      ∀ (roots : List Proto.SubtreeRoot) (anchorHeight total : Nat),
        shardEndHeight roots anchorHeight 0 = anchor.toNat →
        fetchShard S srv pool roots anchorHeight total 0 = (do
          checkFirstLeafScanWidth pool h.toNat anchor.toNat
          let raw ← collectCmxs srv pool h.toNat anchor.toNat
          let (lo, hi) ← shardLeafBounds 0 (asU32 roots.length) total 0 raw.length
          pure { shardIndex := 0, cmxs := (raw.take hi).drop lo }) := by
  obtain ⟨n, hle, hfind, hleast⟩ := findPoolActivationHeight_of_mono hsize hmono hpos
  have hchecked := findPoolActivationHeightU32_eq S srv pool anchor
  rw [hfind] at hchecked
  obtain ⟨h, hfound, rfl⟩ := map_eq_ok.mp hchecked
  have hgenesis : size 0 = 0 := Except.ok.inj (hsize 0 (Nat.zero_le _)).symm
  have hone : 1 ≤ h.toNat := by
    rw [Nat.one_le_iff_ne_zero]
    intro hzero
    exact absurd (hzero ▸ hgenesis : size h.toNat = 0) (Nat.pos_iff_ne_zero.mp hleast.1)
  have hbelow : size (h.toNat - 1) = 0 := by
    by_contra hne
    exact absurd (hleast.2 (Nat.pos_of_ne_zero hne)) (by omega)
  have hbase : treeSizeAt S srv pool (h.toNat - 1) = .ok 0 :=
    hbelow ▸ hsize _ ((Nat.sub_le _ _).trans hle)
  exact ⟨h, hfound, ⟨⟨hone, hleast.1⟩, fun n hn ↦ hleast.2 hn.2⟩, hbelow,
    fun roots anchorHeight total hstop ↦ fetchShard_zero hstop hfind hbase total⟩

/-! ## One leaf a byte -/

/-- Trees whose frontiers are encoded with one byte a leaf. -/
def byteTrees : ShardTrees where
  Hash := Bytes32
  Frontier := Nat
  Path := Unit
  Tree := Unit
  fromBytes := some
  toBytes := id
  readCommitmentTree bytes := .ok bytes.length
  emptyFrontier := 0
  frontierPosition n := if n = 0 then none else some (n - 1)
  frontierRoot _ := fill 32 0
  empty := ()
  insert _ _ _ := .ok ()
  insertFrontier _ _ _ := .ok ()
  batchInsert _ _ _ := .ok ()
  rootAtCheckpoint _ := .ok none
  witnessAtCheckpoint _ _ := .ok none
  pathRoot _ _ := fill 32 0

/-- The first leaf is in block 3. -/
def thirdBlockServer : Server where
  connect := .ok ()
  getLatestBlock := .ok 5
  getBlockRange _ _ := .ok []
  getTransaction _ _ := .error "not served"
  getTreeState h := .ok ⟨if h < 3 then "" else "00", ""⟩
  getSubtreeRoots _ _ := .ok []

theorem firstLeaf_exact_third :
    ∃ h, findPoolActivationHeightU32 byteTrees thirdBlockServer .orchard 5 = .ok h ∧
      IsLeast {n | 1 ≤ n ∧ 0 < if n < 3 then 0 else 1} h.toNat := by
  obtain ⟨h, hfound, hleast, -⟩ := firstLeaf_exact byteTrees thirdBlockServer .orchard
    (fun n ↦ if n < 3 then 0 else 1) 5 (by decide) (fun a _ b _ hab ↦ by grind) (by decide)
  exact ⟨h, hfound, hleast⟩

end ShardZero

end LedgerZcash
