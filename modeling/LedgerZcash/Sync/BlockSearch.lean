import LedgerZcash.Lib.Collect
import LedgerZcash.Sync.Client
import Mathlib.Tactic
import Mathlib.Logic.Relation

/-!
# The height of a timestamp

`findBlockHeight` looks for the latest block that is not later than a timestamp.  It narrows a
bracket of heights by interpolation (`narrow`), and streams what is left of it.

The search is safe on any block times (`search_safe`).  That it finds the latest block, on
times that never go down, holds exactly when the timestamp is not before the fixed lower
bound of the search and no block that it reads is followed by one with the same time
(`findsLatest_iff`).
-/

namespace LedgerZcash

open Hex Collect

/-! ## The code -/

/-- An endpoint that also answers `GetBlock`. -/
structure BlockServer extends Server where
  getBlock : Nat → Except String Proto.CompactBlock

/-- The time of a block is a `u32`. -/
def Proto.CompactBlock.timestamp (b : Proto.CompactBlock) : UInt32 := .ofNat b.time

def getBlockTime (srv : BlockServer) (height : UInt32) : Except Failure UInt32 :=
  (orFail (srv.getBlock height.toNat) fun e ↦
    "GetBlock(" ++ height.toNat.repr ++ ") failed: " ++ e).map Proto.CompactBlock.timestamp

def rangeFetchThreshold : UInt32 := 500

/-- The lower end of the search. -/
def orchardActivationMainnet : UInt32 := 1687104

/-- The heights between which the search looks, with their block times. -/
structure Bracket where
  low : UInt32
  high : UInt32
  lowT : UInt32
  highT : UInt32

/-- `a / b` on `u64`. -/
def divU64 (a b : Nat) : Except Failure Nat := if b = 0 then .error .panic else .ok (a / b)

/-- `x.clamp(lo, hi)`. -/
def clampU32 (x lo hi : UInt32) : Except Failure UInt32 :=
  if lo ≤ hi then .ok (max lo (min x hi)) else .error .panic

/-- The interpolated height, strictly between the ends of the bracket. -/
def estimate (b : Bracket) (timestamp : UInt32) : Except Failure UInt32 := do
  let rangeH ← subU32 b.high b.low
  let rangeT ← subU32 b.highT b.lowT
  let offsetT ← subU32 timestamp b.lowT
  let product ← mulU64 offsetT.toNat rangeH.toNat
  let quotient ← divU64 product (max rangeT 1).toNat
  let last ← subU32 rangeH 1
  let step ← clampU32 (.ofNat quotient) 1 last
  addU32 b.low step

theorem clampU32_eq_ok {x lo hi y : UInt32} (h : clampU32 x lo hi = .ok y) : lo ≤ y ∧ y ≤ hi := by
  unfold clampU32 at h
  split at h
  · rename_i hle
    cases h
    rw [UInt32.le_iff_toNat_le] at hle ⊢
    rw [UInt32.le_iff_toNat_le, UInt32.toNat_max, UInt32.toNat_min]
    omega
  · cases h

/-- Every estimate is strictly inside. -/
theorem estimate_bounds {b : Bracket} {timestamp est : UInt32}
    (h : estimate b timestamp = .ok est) : b.low < est ∧ est < b.high := by
  obtain ⟨rangeH, hrangeH, h⟩ := bind_eq_ok.mp h
  obtain ⟨rangeT, _, h⟩ := bind_eq_ok.mp h
  obtain ⟨offsetT, _, h⟩ := bind_eq_ok.mp h
  obtain ⟨product, _, h⟩ := bind_eq_ok.mp h
  obtain ⟨quotient, _, h⟩ := bind_eq_ok.mp h
  obtain ⟨last, hlast, h⟩ := bind_eq_ok.mp h
  obtain ⟨step, hstep, hest⟩ := bind_eq_ok.mp h
  obtain ⟨hone, hle⟩ := clampU32_eq_ok hstep
  rw [subU32_eq_ok] at hrangeH hlast
  rw [addU32_eq_ok] at hest
  rw [UInt32.le_iff_toNat_le] at hone hle
  rw [UInt32.toNat_one] at hone hlast
  rw [UInt32.lt_iff_toNat_lt, UInt32.lt_iff_toNat_lt]
  omega

/-- The bracket after a block inside of it was read. -/
def Bracket.narrowed (b : Bracket) (timestamp est estT : UInt32) : Bracket :=
  if estT < timestamp then { b with low := est, lowT := estT }
  else { b with high := est, highT := estT }

/-- A bracket is narrowed to a smaller one. -/
theorem Bracket.narrowed_size {b : Bracket} {timestamp est : UInt32} (estT : UInt32)
    (h : estimate b timestamp = .ok est) :
    (b.narrowed timestamp est estT).high.toNat - (b.narrowed timestamp est estT).low.toNat <
      b.high.toNat - b.low.toNat := by
  obtain ⟨hlow, hhigh⟩ := estimate_bounds h
  rw [UInt32.lt_iff_toNat_lt] at hlow hhigh
  unfold narrowed
  split <;> dsimp only <;> omega

/-- Phase 1: narrow the bracket until the threshold. -/
def narrow (srv : BlockServer) (timestamp : UInt32) (b : Bracket) :
    Except Failure (UInt32 × UInt32) :=
  match subU32 b.high b.low with
  | .error err => .error err
  | .ok range =>
      if rangeFetchThreshold < range then
        match _hest : estimate b timestamp with
        | .error err => .error err
        | .ok est =>
            match getBlockTime srv est with
            | .error err => .error err
            | .ok estT => narrow srv timestamp (b.narrowed timestamp est estT)
      else .ok (b.low, b.high)
termination_by b.high.toNat - b.low.toNat
decreasing_by exact Bracket.narrowed_size _ _hest

/-- Phase 2 reads the stream up to the first block that is too late. -/
def lastBlock (timestamp candidate : UInt32) :
    List (Except String Proto.CompactBlock) → Except Failure UInt32
  | [] => .ok candidate
  | .error e :: _ => .error (.error ("GetBlockRange stream error: " ++ e))
  | .ok block :: stream =>
      if block.timestamp ≤ timestamp then lastBlock timestamp (.ofNat block.height) stream
      else .ok candidate

def findInRange (srv : BlockServer) (low high timestamp : UInt32) : Except Failure UInt32 := do
  let stream ← orFail (srv.getBlockRange low.toNat high.toNat) fun e ↦
    "GetBlockRange(" ++ low.toNat.repr ++ "-" ++ high.toNat.repr ++ ") failed: " ++ e
  lastBlock timestamp low stream

/-- The search in a chain with the given tip. -/
def searchBelow (srv : BlockServer) (tip timestamp : UInt32) : Except Failure UInt32 := do
  let low := orchardActivationMainnet
  let lowT ← getBlockTime srv low
  if timestamp ≤ lowT then pure low
  else do
    let highT ← getBlockTime srv tip
    if highT ≤ timestamp then pure tip
    else do
      let (low, high) ← narrow srv timestamp ⟨low, tip, lowT, highT⟩
      findInRange srv low high timestamp

/-- The height of the latest block whose time is at most `timestamp`. -/
def findBlockHeight (srv : BlockServer) (timestamp : UInt32) : Except Failure UInt32 := do
  orFail srv.connect id
  let tip ← (chainTipWithClient srv.toServer).map UInt32.ofNat
  if tip = 0 then pure 0 else searchBelow srv tip timestamp

/-! ## Servers that follow a chain -/

/-- The server has the blocks up to a tip, at the given times, and no other. -/
structure ServesTimes (srv : BlockServer) (time : Nat → UInt32) (tip : UInt32) : Prop where
  connect : srv.connect = .ok ()
  latest : srv.getLatestBlock = .ok tip.toNat
  getBlock : ∀ h, h ≤ tip.toNat → ∃ b, srv.getBlock h = .ok b ∧ b.timestamp = time h
  above : ∀ h, tip.toNat < h → ∃ e, srv.getBlock h = .error e
  range : ∀ s e, s ≤ e → e ≤ tip.toNat → ∃ blocks : List Proto.CompactBlock,
    srv.getBlockRange s e = .ok (blocks.map .ok) ∧
      (blocks.map fun b ↦ b.height) = List.range' s (e - s + 1) ∧
      ∀ b ∈ blocks, b.timestamp = time b.height

/-! ## The loop -/

/-- One iteration of the loop. -/
inductive Narrows (srv : BlockServer) (timestamp : UInt32) : Bracket → Bracket → Prop
  | probe {b est estT} : rangeFetchThreshold < b.high - b.low →
      estimate b timestamp = .ok est → getBlockTime srv est = .ok estT →
      Narrows srv timestamp b (b.narrowed timestamp est estT)

/-- The loop's invariant: the bracket lies in the chain, its times are those of its ends, and
the timestamp lies between them. -/
structure Bracket.Holds (time : Nat → UInt32) (tip timestamp : UInt32) (b : Bracket) : Prop where
  nonempty : b.low < b.high
  lower : orchardActivationMainnet ≤ b.low
  upper : b.high ≤ tip
  lowTime : b.lowT = time b.low.toNat
  highTime : b.highT = time b.high.toNat
  after : b.lowT < timestamp
  before : timestamp ≤ b.highT

section Search

variable {srv : BlockServer} {time : Nat → UInt32} {tip timestamp : UInt32} {b b' : Bracket}

theorem getBlockTime_eq (hs : ServesTimes srv time tip) {h : UInt32} (hle : h ≤ tip) :
    getBlockTime srv h = .ok (time h.toNat) := by
  obtain ⟨block, hblock, htime⟩ := hs.getBlock h.toNat (UInt32.le_iff_toNat_le.mp hle)
  rw [getBlockTime, hblock, ← htime]
  rfl

theorem getBlockTime_above (hs : ServesTimes srv time tip) {h : UInt32} (hlt : tip < h) :
    ∃ err, getBlockTime srv h = .error err := by
  obtain ⟨e, he⟩ := hs.above h.toNat (UInt32.lt_iff_toNat_lt.mp hlt)
  exact ⟨_, by rw [getBlockTime, he]; rfl⟩

theorem mulU64_toNat (a b : UInt32) : mulU64 a.toNat b.toNat = .ok (a.toNat * b.toNat) := by
  have hlt : a.toNat * b.toNat < 2 ^ 32 * 2 ^ 32 := Nat.mul_lt_mul'' a.toNat_lt b.toNat_lt
  exact mulU64_of_lt (hlt.trans_eq (by decide))

/-- In a bracket of more than two heights with the timestamp inside, nothing in the estimate
overflows, divides by zero or inverts the clamp. -/
theorem exists_estimate (hafter : b.lowT ≤ timestamp) (hbefore : timestamp ≤ b.highT)
    (hle : b.low ≤ b.high) (hbig : 1 < b.high - b.low) :
    ∃ est, estimate b timestamp = .ok est := by
  have hrangeH : subU32 b.high b.low = .ok (b.high - b.low) := if_pos hle
  have hrangeT : subU32 b.highT b.lowT = .ok (b.highT - b.lowT) :=
    if_pos (UInt32.le_trans hafter hbefore)
  have hoffsetT : subU32 timestamp b.lowT = .ok (timestamp - b.lowT) := if_pos hafter
  have hlast : subU32 (b.high - b.low) 1 = .ok (b.high - b.low - 1) := if_pos (UInt32.le_of_lt hbig)
  have hmax : (max (b.highT - b.lowT) 1).toNat ≠ 0 := by
    rw [UInt32.toNat_max, UInt32.toNat_one]
    omega
  have hquotient : ∀ product, divU64 product (max (b.highT - b.lowT) 1).toNat =
      .ok (product / (max (b.highT - b.lowT) 1).toNat) := fun _ ↦ if_neg hmax
  have hone : 1 ≤ b.high - b.low - 1 := by
    have hl := subU32_eq_ok.mp hlast
    rw [UInt32.lt_iff_toNat_lt, UInt32.toNat_one] at hbig
    rw [UInt32.toNat_one] at hl
    rw [UInt32.le_iff_toNat_le, UInt32.toNat_one]
    omega
  obtain ⟨step, hstep⟩ : ∃ step, clampU32 (.ofNat ((timestamp - b.lowT).toNat *
      (b.high - b.low).toNat / (max (b.highT - b.lowT) 1).toNat)) 1 (b.high - b.low - 1) =
        .ok step := ⟨_, if_pos hone⟩
  have hsum : addU32 b.low step = .ok (b.low + step) := by
    have hl := subU32_eq_ok.mp hlast
    have hh := subU32_eq_ok.mp hrangeH
    have hs := UInt32.le_iff_toNat_le.mp (clampU32_eq_ok hstep).2
    have hhigh := b.high.toNat_lt
    rw [UInt32.toNat_one] at hl
    exact if_pos (show _ < 2 ^ 32 by omega)
  refine ⟨b.low + step, ?_⟩
  rw [estimate, hrangeH, ok_bind, hrangeT, ok_bind, hoffsetT, ok_bind, mulU64_toNat, ok_bind,
    hquotient, ok_bind, hlast, ok_bind, hstep, ok_bind, hsum]

/-- Every height between the ends of a bracket of the chain can be read, and the bracket around
it is again one. -/
theorem Bracket.Holds.narrowed (h : b.Holds time tip timestamp) {est : UInt32}
    (hest : estimate b timestamp = .ok est) :
    (b.narrowed timestamp est (time est.toNat)).Holds time tip timestamp := by
  obtain ⟨hlow, hhigh⟩ := estimate_bounds hest
  unfold Bracket.narrowed
  split
  · rename_i hlt
    exact ⟨hhigh, UInt32.le_trans h.lower (UInt32.le_of_lt hlow), h.upper, rfl, h.highTime, hlt,
      h.before⟩
  · rename_i hnlt
    exact ⟨hlow, h.lower, UInt32.le_trans (UInt32.le_of_lt hhigh) h.upper, h.lowTime, rfl,
      h.after, UInt32.not_lt.mp hnlt⟩

theorem Bracket.Holds.est_le (h : b.Holds time tip timestamp) {est : UInt32}
    (hest : estimate b timestamp = .ok est) : est ≤ tip :=
  UInt32.le_trans (UInt32.le_of_lt (estimate_bounds hest).2) h.upper

/-- An iteration reads a block inside of the bracket, and keeps the invariant. -/
theorem Narrows.holds (hs : ServesTimes srv time tip) (hn : Narrows srv timestamp b b')
    (h : b.Holds time tip timestamp) : b'.Holds time tip timestamp := by
  cases hn with
  | probe _ hest hread =>
      rw [getBlockTime_eq hs (h.est_le hest)] at hread
      cases hread
      exact h.narrowed hest

theorem holds_of_reaches (hs : ServesTimes srv time tip)
    (hr : Relation.ReflTransGen (Narrows srv timestamp) b b')
    (h : b.Holds time tip timestamp) : b'.Holds time tip timestamp := by
  induction hr with
  | refl => exact h
  | tail _ hn ih => exact hn.holds hs ih

/-- Under the invariant the next estimate exists. -/
theorem Bracket.Holds.exists_estimate (h : b.Holds time tip timestamp)
    (hbig : rangeFetchThreshold < b.high - b.low) : ∃ est, estimate b timestamp = .ok est :=
  LedgerZcash.exists_estimate (UInt32.le_of_lt h.after) h.before (UInt32.le_of_lt h.nonempty)
    (UInt32.lt_trans (show (1 : UInt32) < 500 by decide) hbig)

/-- The loop ends in a bracket that it reaches and that is at most the threshold wide. -/
theorem exists_narrow (hs : ServesTimes srv time tip) (h : b.Holds time tip timestamp) :
    ∃ b', Relation.ReflTransGen (Narrows srv timestamp) b b' ∧
      ¬rangeFetchThreshold < b'.high - b'.low ∧
      narrow srv timestamp b = .ok (b'.low, b'.high) := by
  induction hsize : b.high.toNat - b.low.toNat using Nat.strong_induction_on generalizing b with
  | _ size ih =>
      have hsub : subU32 b.high b.low = .ok (b.high - b.low) :=
        if_pos (UInt32.le_of_lt h.nonempty)
      rw [narrow, hsub]
      dsimp only
      by_cases hbig : rangeFetchThreshold < b.high - b.low
      · obtain ⟨est, hest⟩ := h.exists_estimate hbig
        have hread := getBlockTime_eq hs (h.est_le hest)
        obtain ⟨b', hreach, hsmall, hnarrow⟩ := ih _
          (hsize ▸ b.narrowed_size (time est.toNat) hest) (h.narrowed hest) rfl
        refine ⟨b', .head (.probe hbig hest hread) hreach, hsmall, ?_⟩
        rw [if_pos hbig]
        split
        · rename_i err herr
          cases hest.symm.trans herr
        · rename_i est' hest'
          cases hest.symm.trans hest'
          rw [hread]
          exact hnarrow
      · exact ⟨b, .refl, hbig, if_neg hbig⟩

/-- Every sequence of iterations ends. -/
theorem wellFounded_narrows (srv : BlockServer) (timestamp : UInt32) :
    WellFounded fun b' b ↦ Narrows srv timestamp b b' := by
  refine Subrelation.wf (r := InvImage (· < ·) fun b : Bracket ↦ b.high.toNat - b.low.toNat) ?_
    (InvImage.wf _ Nat.lt_wfRel.wf)
  intro b' b hn
  cases hn with
  | probe _ hest _ => exact b.narrowed_size _ hest

/-! ## The stream -/

/-- Phase 2 stops at the last of the streamed blocks, or before one that is too late. -/
theorem exists_lastBlock {blocks : List Proto.CompactBlock} (timestamp candidate : UInt32)
    {s n : Nat} (hheights : (blocks.map fun b ↦ b.height) = List.range' s n)
    (hbound : s + n ≤ u32Size) (htimes : ∀ b ∈ blocks, b.timestamp = time b.height) :
    ∃ r, lastBlock timestamp candidate (blocks.map .ok) = .ok r ∧
      (r = candidate ∧ (n = 0 ∨ timestamp < time s) ∨
        s ≤ r.toNat ∧ r.toNat < s + n ∧ time r.toNat ≤ timestamp ∧
          (r.toNat + 1 = s + n ∨ timestamp < time (r.toNat + 1))) := by
  induction blocks generalizing candidate s n with
  | nil =>
      have hn : n = 0 := by simpa using (congrArg List.length hheights).symm
      exact ⟨candidate, rfl, .inl ⟨rfl, .inl hn⟩⟩
  | cons block blocks ih =>
      cases n with
      | zero => cases hheights
      | succ n =>
          rw [List.map_cons, List.range'_succ, List.cons.injEq] at hheights
          obtain ⟨rfl, hheights⟩ := hheights
          obtain ⟨htime, htimes⟩ := List.forall_mem_cons.mp htimes
          rw [List.map_cons, lastBlock, htime]
          by_cases hle : time block.height ≤ timestamp
          · rw [if_pos hle]
            have hheight : (UInt32.ofNat block.height).toNat = block.height := by
              have hlt : block.height + (n + 1) ≤ 2 ^ 32 := hbound
              exact UInt32.toNat_ofNat_of_lt (show _ < 2 ^ 32 by omega)
            obtain ⟨r, hr, hcases⟩ := ih (.ofNat block.height) hheights (by omega) htimes
            refine ⟨r, hr, .inr ?_⟩
            rcases hcases with ⟨rfl, hn⟩ | ⟨hs, hlt, htime, hnext⟩
            · rw [hheight]
              refine ⟨le_rfl, by omega, hle, hn.imp (fun h ↦ by omega) id⟩
            · exact ⟨by omega, by omega, htime, hnext.imp (fun h ↦ by omega) id⟩
          · rw [if_neg hle]
            exact ⟨candidate, rfl, .inl ⟨rfl, .inr (UInt32.not_le.mp hle)⟩⟩

/-- Phase 2 returns the height of a block that is not too late; it is the end of the range, or
the next block is too late. -/
theorem exists_findInRange (hs : ServesTimes srv time tip) {low high : UInt32} (hle : low ≤ high)
    (hhigh : high ≤ tip) (hlow : time low.toNat ≤ timestamp) :
    ∃ r, findInRange srv low high timestamp = .ok r ∧ low ≤ r ∧ r ≤ high ∧
      time r.toNat ≤ timestamp ∧ (r = high ∨ timestamp < time (r.toNat + 1)) := by
  rw [UInt32.le_iff_toNat_le] at hle
  obtain ⟨blocks, hblocks, hheights, htimes⟩ := hs.range low.toNat high.toNat hle
    (UInt32.le_iff_toNat_le.mp hhigh)
  have hmax := high.toNat_lt
  obtain ⟨r, hr, hcases⟩ := exists_lastBlock timestamp low hheights
    (show _ ≤ 2 ^ 32 by omega) htimes
  refine ⟨r, ?_, ?_⟩
  · rw [findInRange, hblocks]
    exact hr
  · rcases hcases with ⟨-, hzero | hlt⟩ | ⟨hlower, hupper, htime, hnext⟩
    · exact absurd hzero (Nat.succ_ne_zero _)
    · exact absurd hlow (UInt32.not_le.mpr hlt)
    · refine ⟨UInt32.le_iff_toNat_le.mpr hlower, UInt32.le_iff_toNat_le.mpr (by omega), htime, ?_⟩
      exact hnext.imp (fun h ↦ UInt32.toNat_inj.mp (by omega)) id

/-! ## The search -/

/-- The bracket of the whole chain. -/
def startBracket (time : Nat → UInt32) (tip : UInt32) : Bracket :=
  ⟨orchardActivationMainnet, tip, time orchardActivationMainnet.toNat, time tip.toNat⟩

theorem startBracket_holds (hlow : orchardActivationMainnet ≤ tip)
    (hafter : time orchardActivationMainnet.toNat < timestamp)
    (hbefore : timestamp < time tip.toNat) :
    (startBracket time tip).Holds time tip timestamp where
  nonempty := by
    refine UInt32.lt_of_le_of_ne hlow fun heq ↦ ?_
    have hself := UInt32.lt_trans hafter hbefore
    rw [show orchardActivationMainnet = tip from heq] at hself
    exact UInt32.lt_irrefl _ hself
  lower := UInt32.le_refl _
  upper := UInt32.le_refl _
  lowTime := rfl
  highTime := rfl
  after := hafter
  before := UInt32.le_of_lt hbefore

theorem findBlockHeight_eq (hs : ServesTimes srv time tip) (htip : tip ≠ 0) :
    findBlockHeight srv timestamp = searchBelow srv tip timestamp := by
  have htip' : (chainTipWithClient srv.toServer).map UInt32.ofNat = .ok tip := by
    rw [chainTipWithClient, hs.latest]
    show Except.ok (UInt32.ofNat (asU32 tip.toNat)) = .ok tip
    rw [asU32_of_lt tip.toNat_lt, UInt32.ofNat_toNat]
  rw [findBlockHeight, hs.connect, htip']
  exact if_neg htip

/-- A tip below the lower bound of the search. -/
theorem searchBelow_of_lt (hs : ServesTimes srv time tip)
    (hlt : tip < orchardActivationMainnet) : ∃ err, searchBelow srv tip timestamp = .error err := by
  obtain ⟨err, herr⟩ := getBlockTime_above hs hlt
  exact ⟨err, by rw [searchBelow, herr]; rfl⟩

/-- A timestamp up to that of the lower bound. -/
theorem searchBelow_of_le (hs : ServesTimes srv time tip) (hlow : orchardActivationMainnet ≤ tip)
    (hle : timestamp ≤ time orchardActivationMainnet.toNat) :
    searchBelow srv tip timestamp = .ok orchardActivationMainnet := by
  rw [searchBelow, getBlockTime_eq hs hlow]
  exact if_pos hle

/-- A timestamp from that of the tip on. -/
theorem searchBelow_of_ge (hs : ServesTimes srv time tip) (hlow : orchardActivationMainnet ≤ tip)
    (hafter : time orchardActivationMainnet.toNat < timestamp) (hge : time tip.toNat ≤ timestamp) :
    searchBelow srv tip timestamp = .ok tip := by
  rw [searchBelow, getBlockTime_eq hs hlow, ok_bind, if_neg (UInt32.not_le.mpr hafter),
    getBlockTime_eq hs (UInt32.le_refl tip)]
  exact if_pos hge

/-- A timestamp in between is looked for by narrowing and streaming. -/
theorem exists_searchBelow (hs : ServesTimes srv time tip)
    (hlow : orchardActivationMainnet ≤ tip)
    (hafter : time orchardActivationMainnet.toNat < timestamp)
    (hbefore : timestamp < time tip.toNat) :
    ∃ b h, Relation.ReflTransGen (Narrows srv timestamp) (startBracket time tip) b ∧
      ¬rangeFetchThreshold < b.high - b.low ∧ b.Holds time tip timestamp ∧
      searchBelow srv tip timestamp = .ok h ∧ b.low ≤ h ∧ h ≤ b.high ∧
      time h.toNat ≤ timestamp ∧ (h = b.high ∨ timestamp < time (h.toNat + 1)) := by
  have hstart := startBracket_holds hlow hafter hbefore
  obtain ⟨b, hreach, hsmall, hnarrow⟩ := exists_narrow hs hstart
  have hb := holds_of_reaches hs hreach hstart
  have hlowT : time b.low.toNat ≤ timestamp := hb.lowTime ▸ UInt32.le_of_lt hb.after
  obtain ⟨h, hfind, hbounds⟩ := exists_findInRange hs (UInt32.le_of_lt hb.nonempty) hb.upper hlowT
  refine ⟨b, h, hreach, hsmall, hb, ?_, hbounds⟩
  have hnarrow' : narrow srv timestamp ⟨orchardActivationMainnet, tip,
      time orchardActivationMainnet.toNat, time tip.toNat⟩ = .ok (b.low, b.high) := hnarrow
  rw [searchBelow, getBlockTime_eq hs hlow, ok_bind, if_neg (UInt32.not_le.mpr hafter),
    getBlockTime_eq hs (UInt32.le_refl tip), ok_bind, if_neg (UInt32.not_le.mpr hbefore), hnarrow']
  exact hfind

/-- On any block times, for a timestamp after that of the lower bound: in every state of the loop
the timestamp lies in the bracket, the estimate is computed without an overflow, a division by
zero or an inverted clamp, and is strictly inside; the loop ends; and the height that is
returned is that of a block that is not too late, which is the tip, or has the timestamp
itself, or is followed by one that is too late. -/
theorem search_safe (hs : ServesTimes srv time tip) (hlow : orchardActivationMainnet ≤ tip)
    (hafter : time orchardActivationMainnet.toNat < timestamp) :
    (timestamp < time tip.toNat →
      ∀ b, Relation.ReflTransGen (Narrows srv timestamp) (startBracket time tip) b →
        (time b.low.toNat < timestamp ∧ timestamp ≤ time b.high.toNat) ∧
        (b.lowT = time b.low.toNat ∧ b.highT = time b.high.toNat) ∧
        (rangeFetchThreshold < b.high - b.low →
          ∃ est, estimate b timestamp = .ok est ∧ b.low < est ∧ est < b.high)) ∧
    (WellFounded fun b' b ↦ Narrows srv timestamp b b') ∧
    ∃ h, findBlockHeight srv timestamp = .ok h ∧ orchardActivationMainnet ≤ h ∧ h ≤ tip ∧
      time h.toNat ≤ timestamp ∧
      (h = tip ∨ timestamp < time (h.toNat + 1) ∨ time h.toNat = timestamp) := by
  have htip : tip ≠ 0 := by
    rintro rfl
    exact absurd hlow (by decide)
  refine ⟨fun hbefore b hreach ↦ ?_, wellFounded_narrows srv timestamp, ?_⟩
  · have hb := holds_of_reaches hs hreach (startBracket_holds hlow hafter hbefore)
    refine ⟨⟨hb.lowTime ▸ hb.after, hb.highTime ▸ hb.before⟩, ⟨hb.lowTime, hb.highTime⟩,
      fun hbig ↦ ?_⟩
    obtain ⟨est, hest⟩ := hb.exists_estimate hbig
    exact ⟨est, hest, estimate_bounds hest⟩
  · rw [findBlockHeight_eq hs htip]
    by_cases hge : time tip.toNat ≤ timestamp
    · exact ⟨tip, searchBelow_of_ge hs hlow hafter hge, hlow, UInt32.le_refl _, hge, .inl rfl⟩
    · obtain ⟨b, h, -, -, hb, hfind, hlower, hupper, htime, hnext⟩ :=
        exists_searchBelow hs hlow hafter (UInt32.not_le.mp hge)
      refine ⟨h, hfind, UInt32.le_trans hb.lower hlower, UInt32.le_trans hupper hb.upper, htime, ?_⟩
      rcases hnext with rfl | hnext
      · exact .inr (.inr (UInt32.le_antisymm htime (hb.highTime ▸ hb.before)))
      · exact .inr (.inl hnext)

/-! ## The latest block -/

/-- The greatest height from one to the tip whose block is not too late, or one when there is
none. -/
def IsLatest (time : Nat → UInt32) (tip timestamp h : UInt32) : Prop :=
  (1 ≤ h ∧ h ≤ tip ∧ time h.toNat ≤ timestamp ∧
    ∀ k, h.toNat < k → k ≤ tip.toNat → timestamp < time k) ∨
  (h = 1 ∧ ∀ k, 1 ≤ k → k ≤ tip.toNat → timestamp < time k)

/-- The heights whose times the search reads, the tip apart: its lower bound, and its
estimates. -/
inductive Probed (srv : BlockServer) (time : Nat → UInt32) (tip timestamp : UInt32) :
    UInt32 → Prop
  | lower : Probed srv time tip timestamp orchardActivationMainnet
  | estimate {b est} : time orchardActivationMainnet.toNat < timestamp →
      timestamp < time tip.toNat →
      Relation.ReflTransGen (Narrows srv timestamp) (startBracket time tip) b →
      rangeFetchThreshold < b.high - b.low → LedgerZcash.estimate b timestamp = .ok est →
      Probed srv time tip timestamp est

/-- The upper end of a bracket is the tip, or it was read. -/
theorem high_of_reaches (hafter : time orchardActivationMainnet.toNat < timestamp)
    (hbefore : timestamp < time tip.toNat)
    (hr : Relation.ReflTransGen (Narrows srv timestamp) (startBracket time tip) b) :
    b.high = tip ∨ Probed srv time tip timestamp b.high := by
  induction hr with
  | refl => exact .inl rfl
  | tail hreach hn ih =>
      cases hn with
      | probe hbig hest _ =>
          unfold Bracket.narrowed
          split
          · exact ih
          · exact .inr (.estimate hafter hbefore hreach hbig hest)

/-- The loop has no choice. -/
theorem narrows_rightUnique : Relator.RightUnique (Narrows srv timestamp) := by
  rintro b c d ⟨_, hest, hread⟩ ⟨_, hest', hread'⟩
  cases hest.symm.trans hest'
  cases hread.symm.trans hread'
  rfl

/-- The upper end only comes down. -/
theorem high_le_of_reaches (hr : Relation.ReflTransGen (Narrows srv timestamp) b b') :
    b'.high ≤ b.high := by
  induction hr with
  | refl => exact UInt32.le_refl _
  | tail _ hn ih =>
      cases hn with
      | probe _ hest _ =>
          unfold Bracket.narrowed
          split
          · exact ih
          · exact UInt32.le_trans (UInt32.le_of_lt (estimate_bounds hest).2) ih

/-- Once a block with the timestamp itself was read, the loop ends at or below it. -/
theorem high_le_of_probe (hs : ServesTimes srv time tip) {est : UInt32}
    (hb : b.Holds time tip timestamp) (hbig : rangeFetchThreshold < b.high - b.low)
    (hest : estimate b timestamp = .ok est) (htime : time est.toNat = timestamp)
    (hsmall : ¬rangeFetchThreshold < b'.high - b'.low) {b₀ : Bracket}
    (hr : Relation.ReflTransGen (Narrows srv timestamp) b₀ b)
    (hr' : Relation.ReflTransGen (Narrows srv timestamp) b₀ b') : b'.high ≤ est := by
  have hstep : Narrows srv timestamp b (b.narrowed timestamp est (time est.toNat)) :=
    .probe hbig hest (getBlockTime_eq hs (hb.est_le hest))
  have hhigh : (b.narrowed timestamp est (time est.toNat)).high = est := by
    rw [Bracket.narrowed, if_neg (htime ▸ UInt32.lt_irrefl _)]
  rw [← hhigh]
  rcases Relation.ReflTransGen.total_of_right_unique narrows_rightUnique (hr.tail hstep) hr' with
    h | h
  · exact high_le_of_reaches h
  · -- no iteration starts from the last bracket
    rcases Relation.ReflTransGen.cases_head h with rfl | ⟨c, hc, -⟩
    · exact UInt32.le_refl _
    · cases hc with
      | probe hbig' _ _ => exact absurd hbig' hsmall

/-- A block that is not too late, and whose successor is, is the latest. -/
theorem isLatest_of_next {h : UInt32}
    (hmono : ∀ h k, 1 ≤ h → h ≤ k → k ≤ tip.toNat → time h ≤ time k) (hone : 1 ≤ h) (hle : h ≤ tip)
    (htime : time h.toNat ≤ timestamp) (hnext : h = tip ∨ timestamp < time (h.toNat + 1)) :
    IsLatest time tip timestamp h := by
  refine .inl ⟨hone, hle, htime, fun k hk hktip ↦ ?_⟩
  rcases hnext with rfl | hnext
  · exact absurd hktip (Nat.not_le.mpr hk)
  · exact UInt32.lt_of_lt_of_le hnext (hmono _ k (Nat.succ_pos _) hk hktip)

/-- The latest block has no successor that is not too late. -/
theorem IsLatest.next {h : UInt32} (hl : IsLatest time tip timestamp h)
    {k : UInt32} (hk : h ≤ k) (hktip : k ≠ tip) (hkle : k ≤ tip) :
    timestamp < time (k.toNat + 1) := by
  have hlt : k.toNat < tip.toNat :=
    UInt32.lt_iff_toNat_lt.mp (UInt32.lt_of_le_of_ne hkle hktip)
  rw [UInt32.le_iff_toNat_le] at hk
  rcases hl with ⟨-, -, -, hall⟩ | ⟨-, hall⟩
  · exact hall _ (by omega) hlt
  · exact hall _ (Nat.succ_pos _) hlt

/-- The condition of the search: its lower bound is a block of the chain that is not too late,
and no block that it reads has the timestamp itself and a successor that has it too. -/
structure Searchable (srv : BlockServer) (time : Nat → UInt32) (tip timestamp : UInt32) :
    Prop where
  inChain : orchardActivationMainnet ≤ tip
  notLate : time orchardActivationMainnet.toNat ≤ timestamp
  probes : ∀ h, Probed srv time tip timestamp h → time h.toNat = timestamp →
    h = tip ∨ timestamp < time (h.toNat + 1)

/-- Every height that is read lies in the chain. -/
theorem Probed.le_tip (hlow : orchardActivationMainnet ≤ tip) (hs : ServesTimes srv time tip)
    {h : UInt32} (hp : Probed srv time tip timestamp h) : h ≤ tip := by
  cases hp with
  | lower => exact hlow
  | estimate hafter hbefore hreach _ hest =>
      exact (holds_of_reaches hs hreach (startBracket_holds hlow hafter hbefore)).est_le hest

/-- Under the condition the search returns the latest block. -/
theorem Searchable.exists_latest (h : Searchable srv time tip timestamp)
    (hs : ServesTimes srv time tip)
    (hmono : ∀ h k, 1 ≤ h → h ≤ k → k ≤ tip.toNat → time h ≤ time k) :
    ∃ r, searchBelow srv tip timestamp = .ok r ∧ IsLatest time tip timestamp r := by
  have hone : 1 ≤ tip := UInt32.le_trans (by decide) h.inChain
  by_cases hle : timestamp ≤ time orchardActivationMainnet.toNat
  · have heq := UInt32.le_antisymm h.notLate hle
    exact ⟨_, searchBelow_of_le hs h.inChain hle,
      isLatest_of_next hmono (by decide) h.inChain h.notLate (h.probes _ .lower heq)⟩
  have hafter := UInt32.not_le.mp hle
  by_cases hge : time tip.toNat ≤ timestamp
  · exact ⟨tip, searchBelow_of_ge hs h.inChain hafter hge,
      isLatest_of_next hmono hone (UInt32.le_refl _) hge (.inl rfl)⟩
  have hbefore := UInt32.not_le.mp hge
  obtain ⟨b, r, hreach, -, hb, hfind, hlower, hupper, htime, hnext⟩ :=
    exists_searchBelow hs h.inChain hafter hbefore
  have hrone : 1 ≤ r := UInt32.le_trans (by decide) (UInt32.le_trans hb.lower hlower)
  have hrtip : r ≤ tip := UInt32.le_trans hupper hb.upper
  refine ⟨r, hfind, isLatest_of_next hmono hrone hrtip htime ?_⟩
  rcases hnext with rfl | hnext
  · -- the search ended at the upper end, which has the timestamp itself
    rcases high_of_reaches hafter hbefore hreach with htip | hprobed
    · exact .inl htip
    · exact h.probes _ hprobed (UInt32.le_antisymm htime (hb.highTime ▸ hb.before))
  · exact .inr hnext

/-- When the search returns the latest block, the condition holds. -/
theorem Searchable.of_latest (hs : ServesTimes srv time tip) {r : UInt32}
    (hfind : searchBelow srv tip timestamp = .ok r) (hl : IsLatest time tip timestamp r) :
    Searchable srv time tip timestamp := by
  have htip : orchardActivationMainnet ≤ tip := by
    by_contra hlt
    obtain ⟨err, herr⟩ : ∃ err, searchBelow srv tip timestamp = .error err :=
      searchBelow_of_lt hs (UInt32.not_le.mp hlt)
    cases herr.symm.trans hfind
  have hlower : time orchardActivationMainnet.toNat ≤ timestamp := by
    by_contra hlt
    rw [searchBelow_of_le hs htip (UInt32.le_of_lt (UInt32.not_le.mp hlt))] at hfind
    cases hfind
    rcases hl with ⟨-, -, htime, -⟩ | ⟨heq, -⟩
    · exact hlt htime
    · exact absurd heq (by decide)
  refine ⟨htip, hlower, fun h hp htime ↦ or_iff_not_imp_left.mpr fun hne ↦ ?_⟩
  refine hl.next ?_ hne (hp.le_tip htip hs)
  cases hp with
  | lower =>
      rw [searchBelow_of_le hs htip (htime ▸ UInt32.le_refl _)] at hfind
      cases hfind
      exact UInt32.le_refl _
  | @estimate b _ hafter hbefore hreach hbig hest =>
      have hb := holds_of_reaches hs hreach (startBracket_holds htip hafter hbefore)
      obtain ⟨b', r', hreach', hsmall, -, hfind', -, hupper, -, -⟩ :=
        exists_searchBelow hs htip hafter hbefore
      cases hfind.symm.trans hfind'
      exact UInt32.le_trans hupper (high_le_of_probe hs hb hbig hest htime hsmall hreach hreach')

/-- On a chain whose block times never go down, the search returns the greatest height whose
block is not too late exactly when its fixed lower bound is a block of the chain that is not
too late, and no block that it reads has the timestamp itself and a successor that has it too. -/
theorem findsLatest_iff (hs : ServesTimes srv time tip) (htip : 1 ≤ tip)
    (hmono : ∀ h k, 1 ≤ h → h ≤ k → k ≤ tip.toNat → time h ≤ time k) :
    (∃ h, findBlockHeight srv timestamp = .ok h ∧ IsLatest time tip timestamp h) ↔
      Searchable srv time tip timestamp := by
  have hne : tip ≠ 0 := by
    rintro rfl
    exact absurd htip (by decide)
  rw [findBlockHeight_eq hs hne]
  constructor
  · rintro ⟨h, hfind, hl⟩
    exact Searchable.of_latest hs hfind hl
  · intro h
    exact h.exists_latest hs hmono

end Search

/-! ## A chain with a block every 75 seconds -/

/-- The times of two million blocks. -/
def steadyTime (h : Nat) : UInt32 := .ofNat (min h 2000000 * 75)

/-- A chain of blocks at given times, up to a tip. -/
def timesServer (time : Nat → UInt32) (tip : Nat) : BlockServer where
  connect := .ok ()
  getLatestBlock := .ok tip
  getBlockRange s e :=
    .ok ((List.range' s (e - s + 1)).map fun h ↦ .ok ⟨h, [], (time h).toNat, [], none⟩)
  getTransaction _ _ := .error "not served"
  getTreeState _ := .error "not served"
  getSubtreeRoots _ _ := .ok []
  getBlock h := if h ≤ tip then .ok ⟨h, [], (time h).toNat, [], none⟩ else .error "not found"

theorem timesServer_serves (time : Nat → UInt32) (tip : UInt32) :
    ServesTimes (timesServer time tip.toNat) time tip where
  connect := rfl
  latest := rfl
  getBlock h hle := ⟨_, if_pos hle, UInt32.ofNat_toNat⟩
  above h hlt := ⟨_, if_neg (Nat.not_le.mpr hlt)⟩
  range s e _ _ := by
    refine ⟨(List.range' s (e - s + 1)).map fun h ↦ ⟨h, [], (time h).toNat, [], none⟩, ?_, ?_, ?_⟩
    · rw [List.map_map]
      rfl
    · rw [List.map_map]
      exact List.map_id _
    · intro b hb
      obtain ⟨h, -, rfl⟩ := List.mem_map.mp hb
      exact UInt32.ofNat_toNat

theorem toNat_steadyTime (h : Nat) : (steadyTime h).toNat = min h 2000000 * 75 :=
  UInt32.toNat_ofNat_of_lt' (lt_of_le_of_lt (Nat.mul_le_mul_right 75 (min_le_right h 2000000))
    (by decide))

theorem steadyTime_mono (h k : Nat) (hle : h ≤ k) : steadyTime h ≤ steadyTime k := by
  rw [UInt32.le_iff_toNat_le, toNat_steadyTime, toNat_steadyTime]
  omega

/-- Below the tip no two blocks have one time. -/
theorem steadyTime_lt_succ {h : Nat} (hlt : h < 2000000) : steadyTime h < steadyTime (h + 1) := by
  rw [UInt32.lt_iff_toNat_lt, toNat_steadyTime, toNat_steadyTime]
  omega

/-- The time of a block between the lower bound and the tip can be searched for. -/
theorem searchable_steady :
    Searchable (timesServer steadyTime 2000000) steadyTime 2000000 139999950 where
  inChain := by decide
  notLate := by decide
  probes h _ htime := by
    have hnat : min h.toNat 2000000 * 75 = 139999950 := by
      rw [← toNat_steadyTime, htime]
      rfl
    refine .inr (htime ▸ steadyTime_lt_succ ?_)
    omega

/-- The timestamp of block 1000 is answered with the lower bound of the search; so is that of
two million blocks with one time, and a chain of one block is an error. -/
theorem lower_bound_returned :
    (ServesTimes (timesServer steadyTime 2000000) steadyTime 2000000 ∧
      (∀ h k, h ≤ k → steadyTime h ≤ steadyTime k) ∧
      findBlockHeight (timesServer steadyTime 2000000) 75000 = .ok 1687104 ∧
      ¬∃ h, findBlockHeight (timesServer steadyTime 2000000) 75000 = .ok h ∧
        IsLatest steadyTime 2000000 75000 h) ∧
    findBlockHeight (timesServer (fun _ ↦ 7) 2000000) 7 = .ok 1687104 ∧
    findBlockHeight (timesServer steadyTime 1) 75 =
      .error (.error "GetBlock(1687104) failed: not found") := by
  have hserves : ServesTimes (timesServer steadyTime 2000000) steadyTime 2000000 :=
    timesServer_serves steadyTime 2000000
  have hfind : findBlockHeight (timesServer steadyTime 2000000) 75000 = .ok 1687104 :=
    (findBlockHeight_eq hserves (by decide)).trans
      (searchBelow_of_le hserves (by decide) (by decide))
  have hserves' := timesServer_serves (fun _ ↦ 7) 2000000
  refine ⟨⟨hserves, steadyTime_mono, hfind, ?_⟩,
    (findBlockHeight_eq hserves' (by decide)).trans
      (searchBelow_of_le hserves' (by decide) (by decide)), by rfl⟩
  rintro ⟨h, hh, hl⟩
  cases hfind.symm.trans hh
  rcases hl with ⟨-, -, htime, -⟩ | ⟨heq, -⟩
  · exact absurd htime (by decide)
  · exact absurd heq (by decide)

/-- The equivalence at the failing input; and the block found for the time of block 1866666, where
both sides hold. -/
theorem findsLatest_iff_steady :
    ((∃ h, findBlockHeight (timesServer steadyTime 2000000) 75000 = .ok h ∧
      IsLatest steadyTime 2000000 75000 h) ↔
      Searchable (timesServer steadyTime 2000000) steadyTime 2000000 75000) ∧
    Searchable (timesServer steadyTime 2000000) steadyTime 2000000 139999950 ∧
      ∃ h, findBlockHeight (timesServer steadyTime 2000000) 139999950 = .ok h ∧
        IsLatest steadyTime 2000000 139999950 h := by
  have hserves : ServesTimes (timesServer steadyTime 2000000) steadyTime 2000000 :=
    timesServer_serves steadyTime 2000000
  have hiff : ∀ timestamp, _ ↔ Searchable (timesServer steadyTime 2000000) steadyTime 2000000
      timestamp := fun timestamp ↦ findsLatest_iff hserves (by decide) fun h k _ hle _ ↦
    steadyTime_mono h k hle
  exact ⟨hiff 75000, searchable_steady, (hiff 139999950).mpr searchable_steady⟩

/-- A timestamp between the lower bound and the tip. -/
theorem search_safe_steady :
    ∃ h, findBlockHeight (timesServer steadyTime 2000000) 140000000 = .ok h ∧
      1687104 ≤ h ∧ h ≤ 2000000 ∧ steadyTime h.toNat ≤ 140000000 ∧
      (h = 2000000 ∨ 140000000 < steadyTime (h.toNat + 1) ∨ steadyTime h.toNat = 140000000) :=
  (search_safe (timesServer_serves steadyTime 2000000) (by decide) (by decide)).2.2

end LedgerZcash
