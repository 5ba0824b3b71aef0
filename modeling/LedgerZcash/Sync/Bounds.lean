import LedgerZcash.Sync.Budget
import LedgerZcash.Sync.Partition
import Mathlib.Algebra.Order.Floor.Div

/-!
# The bounds of the retry loop

The loop is looked at one iteration at a time (`LoopStep`).  A split halves a range, so that
an entry of the queue that is `k` retries deep has at most `⌈N / 2 ^ k⌉` of the `N` blocks:
there are no more than 32 retries, their arithmetic stays in range, and the scans are the
nodes of a binary tree with at most `N` leaves (`retryLoop_bounded`).

All this needs a range that is not empty and does not hold every height.  No caller of the
retry branch checks that; without it the branch overflows at once (`harmless_iff`).
-/

namespace LedgerZcash

open Hex Collect

/-! ## One iteration -/

/-- Where the loop is: the number of scans so far, its queue, and the result so far. -/
structure LoopState where
  scans : Nat
  queue : List (UInt32 × UInt32 × UInt32)
  combined : SyncResult

/-- Before the first iteration. -/
def LoopState.start (s e : UInt32) : LoopState := ⟨0, [(s, e, 0)], emptyResult⟩

/-- One iteration that does not end the loop. -/
inductive LoopStep (scan : Nat → UInt32 → UInt32 → Except ScanFailure ScanOutput)
    (maxRetries : UInt32) : LoopState → LoopState → Prop
  | scanned {n s e attempts queue combined out} : scan n s e = .ok out →
      LoopStep scan maxRetries ⟨n, (s, e, attempts) :: queue, combined⟩
        ⟨n + 1, queue, combined.extend out.result⟩
  | split {n s e attempts queue combined err} : scan n s e = .error err →
      err.failure.retryable = true → attempts < maxRetries → 1 < e - s + 1 →
      LoopStep scan maxRetries ⟨n, (s, e, attempts) :: queue, combined⟩
        ⟨n + 1, (s, s + (e - s + 1) / 2 - 1, attempts + 1) ::
          (s + (e - s + 1) / 2 - 1 + 1, e, attempts + 1) :: queue, combined⟩

/-- The arithmetic of the retry branch: the number of blocks, the seconds to wait, the number of
the next attempt, and where the halves meet. -/
structure RetryPlan where
  blockCount : UInt32
  backoffSecs : Nat
  attempts : UInt32
  halves : Option (UInt32 × UInt32)

/-- The end of the first half, and the start of the second. -/
def meetingPoint (s blockCount : UInt32) : Except Failure (UInt32 × UInt32) := do
  let sum ← addU32 s (blockCount / 2)
  let mid ← subU32 sum 1
  let next ← addU32 mid 1
  pure (mid, next)

/-- What the retry branch computes for an entry of the queue, with overflow checks. -/
def retryPlan (s e attempts : UInt32) : Except Failure RetryPlan := do
  let diff ← subU32 e s
  let blockCount ← addU32 diff 1
  let backoffSecs ← powU64 2 attempts
  let next ← addU32 attempts 1
  if 1 < blockCount then do
    let halves ← meetingPoint s blockCount
    pure ⟨blockCount, backoffSecs, next, some halves⟩
  else pure ⟨blockCount, backoffSecs, next, none⟩

/-! ## The arithmetic of a split -/

theorem toNat_blockCount {s e : UInt32} (h : s ≤ e) (hsize : rangeSize s e < u32Size) :
    (e - s + 1).toNat = rangeSize s e := by
  rw [UInt32.toNat_add, UInt32.toNat_sub_of_le _ _ h, UInt32.toNat_one]
  exact Nat.mod_eq_of_lt hsize

theorem meetingPoint_eq {s e : UInt32} (h : s ≤ e) (hsize : rangeSize s e < u32Size)
    (hcount : 1 < e - s + 1) :
    meetingPoint s (e - s + 1) =
      .ok (s + (e - s + 1) / 2 - 1, s + (e - s + 1) / 2 - 1 + 1) := by
  have hle := UInt32.le_iff_toNat_le.mp h
  have he := e.toNat_lt
  obtain ⟨hlt, hmid, hmid'⟩ := toNat_mid h hcount
  have hhalf : ((e - s + 1) / 2).toNat = rangeSize s e / 2 := by
    rw [UInt32.toNat_div, toNat_blockCount h hsize]
    rfl
  have hsum : addU32 s ((e - s + 1) / 2) = .ok (s + (e - s + 1) / 2) := by
    refine if_pos (show _ < 2 ^ 32 from ?_)
    rw [hhalf, rangeSize]
    omega
  have hpre : subU32 (s + (e - s + 1) / 2) 1 = .ok (s + (e - s + 1) / 2 - 1) := by
    have hone := addU32_eq_ok.mp hsum
    refine if_pos ?_
    rw [UInt32.le_iff_toNat_le, UInt32.toNat_one, hone, hhalf, rangeSize]
    omega
  have hnext : addU32 (s + (e - s + 1) / 2 - 1) 1 = .ok (s + (e - s + 1) / 2 - 1 + 1) := by
    rw [addU32_eq_ok, hmid', hmid]
    rfl
  rw [meetingPoint, hsum, ok_bind, hpre, ok_bind, hnext]
  rfl

/-- On a range of heights that is neither empty nor all of them, nothing overflows, and the
plan is what the loop computes. -/
theorem retryPlan_eq {s e attempts : UInt32} (h : s ≤ e) (hsize : rangeSize s e < u32Size)
    (hattempts : attempts.toNat < 64) :
    retryPlan s e attempts = .ok ⟨e - s + 1, 2 ^ attempts.toNat, attempts + 1,
      if 1 < e - s + 1 then some (s + (e - s + 1) / 2 - 1, s + (e - s + 1) / 2 - 1 + 1)
      else none⟩ := by
  have hdiff : subU32 e s = .ok (e - s) := if_pos h
  have hcount : addU32 (e - s) 1 = .ok (e - s + 1) := by
    refine if_pos ?_
    rw [UInt32.toNat_sub_of_le _ _ h, UInt32.toNat_one]
    exact hsize
  have hbackoff : powU64 2 attempts = .ok (2 ^ attempts.toNat) :=
    powU64_of_lt (Nat.pow_lt_pow_right Nat.one_lt_two hattempts)
  have hnext : addU32 attempts 1 = .ok (attempts + 1) := by
    refine if_pos (show _ < 2 ^ 32 from ?_)
    rw [UInt32.toNat_one]
    omega
  rw [retryPlan, hdiff, ok_bind, hcount, ok_bind, hbackoff, ok_bind, hnext, ok_bind]
  split
  · rename_i hone
    rw [meetingPoint_eq h hsize hone]
    rfl
  · rfl

/-- On any other range, the number of blocks overflows. -/
theorem retryPlan_eq_error {s e attempts : UInt32} (h : ¬(s ≤ e ∧ rangeSize s e < u32Size)) :
    retryPlan s e attempts = .error .panic := by
  rw [retryPlan]
  by_cases hle : s ≤ e
  · have hdiff : subU32 e s = .ok (e - s) := if_pos hle
    have hcount : addU32 (e - s) 1 = .error .panic := by
      refine if_neg fun hlt ↦ h ⟨hle, ?_⟩
      rwa [UInt32.toNat_sub_of_le _ _ hle, UInt32.toNat_one] at hlt
    rw [hdiff, ok_bind, hcount]
    rfl
  · have hdiff : subU32 e s = .error .panic := if_neg hle
    rw [hdiff]
    rfl

/-! ## What holds of the queue -/

section Queue

variable {scan : Nat → UInt32 → UInt32 → Except ScanFailure ScanOutput} {maxRetries : UInt32}
  {s₀ e₀ : UInt32}

/-- What holds of an entry of the queue of a loop that started on `s₀` to `e₀`. -/
structure SplitBound (s₀ e₀ : UInt32) (entry : UInt32 × UInt32 × UInt32) : Prop where
  le : entry.1 ≤ entry.2.1
  lower : s₀ ≤ entry.1
  upper : entry.2.1 ≤ e₀
  size : rangeSize entry.1 entry.2.1 ≤ rangeSize s₀ e₀ ⌈/⌉ 2 ^ entry.2.2.toNat
  depth : 2 ^ entry.2.2.toNat < 2 * rangeSize s₀ e₀

theorem SplitBound.start (h : s₀ ≤ e₀) : SplitBound s₀ e₀ (s₀, e₀, 0) where
  le := h
  lower := UInt32.le_refl _
  upper := UInt32.le_refl _
  size := by
    show _ ≤ _ ⌈/⌉ 1
    rw [ceilDiv_one]
  depth := by
    show 1 < _
    rw [rangeSize]
    omega

/-- Half of a rounded quotient is the rounded quotient by twice as much. -/
theorem half_le_ceilDiv {size n k : Nat} (h : size ≤ n ⌈/⌉ 2 ^ k) :
    size - size / 2 ≤ n ⌈/⌉ 2 ^ (k + 1) := by
  have hmul : n ≤ 2 ^ (k + 1) * (n ⌈/⌉ 2 ^ (k + 1)) :=
    (ceilDiv_le_iff_le_mul (Nat.two_pow_pos _)).mp le_rfl
  have hle : n ⌈/⌉ 2 ^ k ≤ 2 * (n ⌈/⌉ 2 ^ (k + 1)) := by
    rw [ceilDiv_le_iff_le_mul (Nat.two_pow_pos _), ← Nat.mul_assoc, ← Nat.pow_succ]
    exact hmul
  omega

/-- A range of two blocks or more is still less deep than the whole. -/
theorem two_pow_lt_of_size {size n k : Nat} (h : size ≤ n ⌈/⌉ 2 ^ k) (htwo : 1 < size) :
    2 ^ k < n := by
  by_contra hle
  have hone : n ⌈/⌉ 2 ^ k ≤ 1 := by
    rw [ceilDiv_le_iff_le_mul (Nat.two_pow_pos _), Nat.mul_one]
    exact Nat.not_lt.mp hle
  omega

/-- Both halves of an entry are one retry deeper, and half as large. -/
theorem SplitBound.halves {s e attempts : UInt32} (h : SplitBound s₀ e₀ (s, e, attempts))
    (hlt : attempts < maxRetries) (hcount : 1 < e - s + 1) :
    SplitBound s₀ e₀ (s, s + (e - s + 1) / 2 - 1, attempts + 1) ∧
      SplitBound s₀ e₀ (s + (e - s + 1) / 2 - 1 + 1, e, attempts + 1) := by
  have hle : s ≤ e := h.le
  have hlower : s₀ ≤ s := h.lower
  have hupper : e ≤ e₀ := h.upper
  have hsize : rangeSize s e ≤ rangeSize s₀ e₀ ⌈/⌉ 2 ^ attempts.toNat := h.size
  obtain ⟨hfirst, hsecond⟩ := rangeSize_halves hle hcount
  obtain ⟨hle₁, hle₂⟩ := halves_le hle hcount
  obtain ⟨hlt', hmid, hmid'⟩ := toNat_mid hle hcount
  have hone := ((one_lt_blockCount_iff hle).mp hcount).1
  have hsucc := toNat_succ_of_lt hlt
  have hhalf := half_le_ceilDiv hsize
  have hdepth : 2 ^ (attempts.toNat + 1) < 2 * rangeSize s₀ e₀ := by
    have := two_pow_lt_of_size hsize hone
    rw [Nat.pow_succ]
    omega
  have hmidle : s + (e - s + 1) / 2 - 1 ≤ e := by
    rw [UInt32.le_iff_toNat_le, hmid]
    exact (Bisect.mid_lt hlt').le
  have hlemid : s ≤ s + (e - s + 1) / 2 - 1 + 1 := by
    rw [UInt32.le_iff_toNat_le, hmid']
    exact (Bisect.le_mid hlt').trans (Nat.le_succ _)
  refine ⟨⟨hle₁, hlower, UInt32.le_trans hmidle hupper, ?_, ?_⟩,
    ⟨hle₂, UInt32.le_trans hlower hlemid, hupper, ?_, ?_⟩⟩
  · show rangeSize s (s + (e - s + 1) / 2 - 1) ≤ _ ⌈/⌉ 2 ^ (attempts + 1).toNat
    rw [hfirst, hsucc]
    omega
  · show 2 ^ (attempts + 1).toNat < _
    rwa [hsucc]
  · show rangeSize (s + (e - s + 1) / 2 - 1 + 1) e ≤ _ ⌈/⌉ 2 ^ (attempts + 1).toNat
    rwa [hsecond, hsucc]
  · show 2 ^ (attempts + 1).toNat < _
    rwa [hsucc]

/-- An iteration keeps the bounds. -/
theorem LoopStep.splitBound {σ τ : LoopState} (h : LoopStep scan maxRetries σ τ)
    (hq : ∀ x ∈ σ.queue, SplitBound s₀ e₀ x) : ∀ x ∈ τ.queue, SplitBound s₀ e₀ x := by
  cases h with
  | scanned _ => exact (List.forall_mem_cons.mp hq).2
  | split _ _ hlt hcount =>
      obtain ⟨hhead, hq⟩ := List.forall_mem_cons.mp hq
      obtain ⟨hfirst, hsecond⟩ := hhead.halves hlt hcount
      exact List.forall_mem_cons.mpr ⟨hfirst, List.forall_mem_cons.mpr ⟨hsecond, hq⟩⟩

/-- The bounds hold in every state of a loop. -/
theorem splitBound_of_reaches (h : s₀ ≤ e₀) {σ : LoopState}
    (hσ : Relation.ReflTransGen (LoopStep scan maxRetries) (.start s₀ e₀) σ) :
    ∀ x ∈ σ.queue, SplitBound s₀ e₀ x := by
  induction hσ with
  | refl => exact List.forall_mem_singleton.mpr (.start h)
  | tail _ hstep ih => exact hstep.splitBound ih

/-- No entry is more than 32 retries deep. -/
theorem SplitBound.attempts_le {entry : UInt32 × UInt32 × UInt32}
    (h : SplitBound s₀ e₀ entry) (hsize : rangeSize s₀ e₀ < u32Size) :
    entry.2.2.toNat ≤ 32 := by
  have hlt : 2 ^ entry.2.2.toNat < 2 ^ 33 := by
    have := h.depth
    rw [u32Size] at hsize
    omega
  exact Nat.lt_succ_iff.mp ((Nat.pow_lt_pow_iff_right Nat.one_lt_two).mp hlt)

theorem SplitBound.rangeSize_lt {entry : UInt32 × UInt32 × UInt32}
    (h : SplitBound s₀ e₀ entry) (hsize : rangeSize s₀ e₀ < u32Size) :
    rangeSize entry.1 entry.2.1 < u32Size := by
  have hlower := UInt32.le_iff_toNat_le.mp h.lower
  have hupper := UInt32.le_iff_toNat_le.mp h.upper
  unfold rangeSize at *
  omega

end Queue

/-! ## The states of a run -/

section Loop

variable {scan : Nat → UInt32 → UInt32 → Except ScanFailure ScanOutput} {maxRetries : UInt32}
  {s₀ e₀ : UInt32}

/-- Every scan of a run is that of the entry at the front in some state of the loop. -/
theorem exists_state_of_scan (σ₀ : LoopState) (n : Nat)
    (queue : List (UInt32 × UInt32 × UInt32)) (combined : SyncResult)
    (hσ : Relation.ReflTransGen (LoopStep scan maxRetries) σ₀ ⟨n, queue, combined⟩) :
    ∀ a ∈ (retryLoop scan maxRetries n queue combined).scans, ∃ σ,
      Relation.ReflTransGen (LoopStep scan maxRetries) σ₀ σ ∧
        σ.queue.head? = some (a.start, a.stop, a.attempts) := by
  revert hσ
  refine retryLoop_rec (motive := fun n queue combined r ↦
    Relation.ReflTransGen (LoopStep scan maxRetries) σ₀ ⟨n, queue, combined⟩ →
      ∀ a ∈ r.scans, ∃ σ, Relation.ReflTransGen (LoopStep scan maxRetries) σ₀ σ ∧
        σ.queue.head? = some (a.start, a.stop, a.attempts)) ?_ ?_ ?_ ?_ ?_ n queue combined
  · intro n combined _ a ha
    exact absurd ha List.not_mem_nil
  · intro n s e attempts queue combined out r hout ih hσ
    exact List.forall_mem_cons.mpr ⟨⟨_, hσ, rfl⟩, ih (hσ.tail (.scanned hout))⟩
  · intro n s e attempts queue combined err r herr hretry hlt hcount ih hσ
    exact List.forall_mem_cons.mpr
      ⟨⟨_, hσ, rfl⟩, ih (hσ.tail (.split herr hretry hlt hcount))⟩
  · intro n s e attempts queue combined err _ _ _ _ hσ
    exact List.forall_mem_singleton.mpr ⟨_, hσ, rfl⟩
  · intro n s e attempts queue combined err _ _ hσ
    exact List.forall_mem_singleton.mpr ⟨_, hσ, rfl⟩

/-- The bounds hold of every scan of a run. -/
theorem splitBound_of_scan (h : s₀ ≤ e₀) {a : Attempt}
    (ha : a ∈ (retryLoop scan maxRetries 0 [(s₀, e₀, 0)] emptyResult).scans) :
    SplitBound s₀ e₀ (a.start, a.stop, a.attempts) := by
  obtain ⟨σ, hσ, hhead⟩ := exists_state_of_scan (.start s₀ e₀) 0 _ _ .refl a ha
  exact splitBound_of_reaches h hσ _ (List.mem_of_mem_head? hhead)

/-- No loop goes on for ever: what its queue still costs goes down. -/
theorem wellFounded_loopStep : WellFounded fun τ σ ↦ LoopStep scan maxRetries σ τ := by
  refine Subrelation.wf (r := InvImage (· < ·) fun σ : LoopState ↦
    (σ.queue.map (queueWeight maxRetries)).sum) ?_ (InvImage.wf _ Nat.lt_wfRel.wf)
  intro τ σ h
  show (τ.queue.map (queueWeight maxRetries)).sum < (σ.queue.map (queueWeight maxRetries)).sum
  cases h with
  | @scanned n s e attempts queue combined out _ =>
      have := queueWeight_pos maxRetries (s, e, attempts)
      simp only [List.map_cons, List.sum_cons]
      omega
  | @split n s e attempts queue combined err _ _ hlt _ =>
      have := queueWeight_halves hlt s (s + (e - s + 1) / 2 - 1) (s + (e - s + 1) / 2 - 1 + 1) e s e
      simp only [List.map_cons, List.sum_cons]
      omega

/-- The scans are the nodes of binary trees whose leaves have a block each. -/
theorem length_scans_le (n : Nat) (queue : List (UInt32 × UInt32 × UInt32))
    (combined : SyncResult) (hq : ∀ x ∈ queue, x.1 ≤ x.2.1) :
    (retryLoop scan maxRetries n queue combined).scans.length ≤
      (queue.map fun x ↦ 2 * rangeSize x.1 x.2.1 - 1).sum := by
  revert hq
  refine retryLoop_rec (motive := fun _ queue _ r ↦ (∀ x ∈ queue, x.1 ≤ x.2.1) →
    r.scans.length ≤ (queue.map fun x ↦ 2 * rangeSize x.1 x.2.1 - 1).sum)
    ?_ ?_ ?_ ?_ ?_ n queue combined
  · intro n combined _
    exact Nat.zero_le _
  · intro n s e attempts queue combined out r _ ih hq
    have ih := ih (List.forall_mem_cons.mp hq).2
    simp only [RetryRun.scans_after, List.length_cons, List.map_cons, List.sum_cons]
    unfold rangeSize at *
    omega
  · intro n s e attempts queue combined err r _ _ _ hcount ih hq
    have hle : s ≤ e := (List.forall_mem_cons.mp hq).1
    have hq := (List.forall_mem_cons.mp hq).2
    obtain ⟨hfirst, hsecond⟩ := rangeSize_halves hle hcount
    obtain ⟨hle₁, hle₂⟩ := halves_le hle hcount
    have hone := ((one_lt_blockCount_iff hle).mp hcount).1
    have ih := ih (List.forall_mem_cons.mpr ⟨hle₁, List.forall_mem_cons.mpr ⟨hle₂, hq⟩⟩)
    simp only [RetryRun.scans_after, List.length_cons, List.map_cons, List.sum_cons, hfirst,
      hsecond] at ih ⊢
    omega
  all_goals
    intros
    simp only [List.length_singleton, List.map_cons, List.sum_cons]
    unfold rangeSize
    omega

/-- For every sequence of outcomes and every `maxRetries`, the loop on a range of `N` blocks
ends; an entry of its queue that is `k` retries deep has at most `⌈N / 2 ^ k⌉` blocks, and
`k` is at most 32; what the retry branch computes for it does not overflow; and there are at
most `2 * N - 1` scans. -/
theorem retryLoop_bounded
    (scan : Nat → UInt32 → UInt32 → Except ScanFailure ScanOutput) (maxRetries : UInt32)
    (hle : s₀ ≤ e₀) (hsize : rangeSize s₀ e₀ < u32Size) :
    (WellFounded fun τ σ ↦ LoopStep scan maxRetries σ τ) ∧
    (∀ σ, Relation.ReflTransGen (LoopStep scan maxRetries) (.start s₀ e₀) σ →
      ∀ s e attempts, (s, e, attempts) ∈ σ.queue →
        rangeSize s e ≤ rangeSize s₀ e₀ ⌈/⌉ 2 ^ attempts.toNat ∧ attempts.toNat ≤ 32 ∧
        retryPlan s e attempts = .ok ⟨e - s + 1, 2 ^ attempts.toNat, attempts + 1,
          if 1 < e - s + 1 then some (s + (e - s + 1) / 2 - 1, s + (e - s + 1) / 2 - 1 + 1)
          else none⟩) ∧
    (retryLoop scan maxRetries 0 [(s₀, e₀, 0)] emptyResult).scans.length ≤
      2 * rangeSize s₀ e₀ - 1 := by
  refine ⟨wellFounded_loopStep, fun σ hσ s e attempts hx ↦ ?_, ?_⟩
  · have hbound := splitBound_of_reaches hle hσ _ hx
    have hattempts := hbound.attempts_le hsize
    exact ⟨hbound.size, hattempts, retryPlan_eq hbound.le (hbound.rangeSize_lt hsize)
      (hattempts.trans_lt (by decide))⟩
  · exact length_scans_le 0 [(s₀, e₀, 0)] emptyResult (List.forall_mem_singleton.mpr hle)

/-- Eight blocks, three retries, and a server that always times out. -/
theorem retryLoop_bounded_timeouts :
    (retryLoop (fun _ _ _ ↦ .error ⟨.error "timeout", 0⟩) 3 0 [(1, 8, 0)]
      emptyResult).scans.length ≤ 15 :=
  (retryLoop_bounded _ 3 (show (1 : UInt32) ≤ 8 by decide) (by decide)).2.2

end Loop

/-! ## Ranges that nobody checked -/

section Unchecked

variable {U : NoteCrypto} {rts : Nat → Runtime} {srvs : Nat → Server} {p : SyncParams}

/-- The scan failed with a transient error and is retried, and the arithmetic of the retry
overflows. -/
def Attempt.Overflows (maxRetries : UInt32) (a : Attempt) : Prop :=
  (∃ err, a.outcome = .error err ∧ err.failure.retryable = true) ∧ a.attempts < maxRetries ∧
    retryPlan a.start a.stop a.attempts = .error .panic

/-- The heights that a scan asks the server for. -/
def Attempt.Requests (a : Attempt) (h : Nat) : Prop := a.start.toNat ≤ h ∧ h ≤ a.stop.toNat

/-- A run whose arithmetic stays in range, and whose requests stay in the range of its
parameters. -/
structure RetryRun.Harmless (p : SyncParams) (r : RetryRun) : Prop where
  arithmetic : ∀ a ∈ r.scans, ¬a.Overflows (p.maxRetries.getD 0)
  requests : ∀ a ∈ r.scans, ∀ h, a.Requests h → p.startHeight.toNat ≤ h ∧ h ≤ p.endHeight.toNat

/-- The first scan fails with a transient error, and there are retries. -/
def RetriesFirst (U : NoteCrypto) (rts : Nat → Runtime) (srvs : Nat → Server)
    (p : SyncParams) : Prop :=
  0 < p.maxRetries.getD 0 ∧
    ∃ err, scanOf U rts srvs p 0 p.startHeight p.endHeight = .error err ∧
      err.failure.retryable = true

/-- A run that does not retry its first scan makes no other. -/
theorem scans_of_not_retriesFirst (h : ¬RetriesFirst U rts srvs p) :
    (runSync U rts srvs p).scans =
      [⟨p.startHeight, p.endHeight, 0, scanOf U rts srvs p 0 p.startHeight p.endHeight⟩] := by
  unfold runSync
  dsimp only
  split
  · rfl
  · rename_i hne
    have hpos : 0 < p.maxRetries.getD 0 := UInt32.pos_iff_ne_zero.mpr hne
    show (retryLoop (scanOf U rts srvs p) _ 0 _ emptyResult).scans = _
    rw [retryLoop]
    cases hscan : scanOf U rts srvs p 0 p.startHeight p.endHeight with
    | ok out =>
        dsimp only
        rw [retryLoop]
        rfl
    | error err =>
        dsimp only
        rw [if_neg fun hretry ↦ h ⟨hpos, err, hscan, hretry.1⟩]

/-- A run that retries its first scan enters the retry branch with the whole range. -/
theorem first_mem_scans (h : RetriesFirst U rts srvs p) :
    ∃ err, err.failure.retryable = true ∧
      ⟨p.startHeight, p.endHeight, 0, .error err⟩ ∈ (runSync U rts srvs p).scans := by
  obtain ⟨hpos, err, hscan, hretry⟩ := h
  refine ⟨err, hretry, ?_⟩
  unfold runSync
  dsimp only
  rw [if_neg (UInt32.pos_iff_ne_zero.mp hpos)]
  show _ ∈ (retryLoop (scanOf U rts srvs p) _ 0 _ emptyResult).scans
  rw [retryLoop]
  simp only [hscan]
  split
  · split
    · exact List.mem_cons_self
    · exact List.mem_cons_self
  · exact List.mem_cons_self

/-- A run that makes one scan, and does not retry it, is harmless. -/
theorem harmless_of_not_retriesFirst (h : ¬RetriesFirst U rts srvs p) :
    (runSync U rts srvs p).Harmless p := by
  constructor
  · rw [scans_of_not_retriesFirst h]
    refine List.forall_mem_singleton.mpr ?_
    rintro ⟨⟨err, hscan, hretry⟩, hpos, -⟩
    exact h ⟨hpos, err, hscan, hretry⟩
  · rw [scans_of_not_retriesFirst h]
    exact List.forall_mem_singleton.mpr fun _ hh ↦ hh

/-- So is one whose range is neither empty nor that of all heights. -/
theorem harmless_of_range (hle : p.startHeight ≤ p.endHeight)
    (hsize : rangeSize p.startHeight p.endHeight < u32Size) (h : RetriesFirst U rts srvs p) :
    (runSync U rts srvs p).Harmless p := by
  have hrun : runSync U rts srvs p = retryLoop (scanOf U rts srvs p) (p.maxRetries.getD 0) 0
      [(p.startHeight, p.endHeight, 0)] emptyResult := by
    unfold runSync
    dsimp only
    rw [if_neg (UInt32.pos_iff_ne_zero.mp h.1)]
    rfl
  rw [hrun]
  constructor
  · rintro a ha ⟨-, -, hoverflow⟩
    have hbound := splitBound_of_scan hle ha
    have hattempts : a.attempts.toNat ≤ 32 := hbound.attempts_le hsize
    have hplan := retryPlan_eq hbound.le (hbound.rangeSize_lt hsize)
      (show a.attempts.toNat < 64 from hattempts.trans_lt (by decide))
    cases hplan.symm.trans hoverflow
  · rintro a ha n ⟨hlower, hupper⟩
    have hbound := splitBound_of_scan hle ha
    exact ⟨(UInt32.le_iff_toNat_le.mp hbound.lower).trans hlower,
      hupper.trans (UInt32.le_iff_toNat_le.mp hbound.upper)⟩

/-- A run is harmless exactly when its range is neither empty nor that of all heights, or its
first scan is not retried. -/
theorem harmless_iff : (runSync U rts srvs p).Harmless p ↔
    (p.startHeight ≤ p.endHeight ∧ rangeSize p.startHeight p.endHeight < u32Size) ∨
      ¬RetriesFirst U rts srvs p := by
  constructor
  · intro h
    by_contra hbad
    obtain ⟨hrange, hretries⟩ := not_or.mp hbad
    obtain ⟨err, hretry, hmem⟩ := first_mem_scans (not_not.mp hretries)
    exact h.arithmetic _ hmem ⟨⟨err, rfl, hretry⟩, (not_not.mp hretries).1,
      retryPlan_eq_error hrange⟩
  · rintro (⟨hle, hsize⟩ | hfirst)
    · by_cases hretries : RetriesFirst U rts srvs p
      · exact harmless_of_range hle hsize hretries
      · exact harmless_of_not_retriesFirst hretries
    · exact harmless_of_not_retriesFirst hfirst

/-! ### A reversed range -/

def reversedParams : SyncParams := { sampleParams 5 3 with maxRetries := some 1 }

/-- A server that is not reached: the block count of 5 to 3 underflows, and where it wraps
around the next request is for two thousand million blocks from 5 on. -/
theorem reversed_range_overflows :
    retryPlan 5 3 0 = .error .panic ∧
    ((runSync sampleCrypto (fun _ ↦ sampleRuntime) (fun _ ↦ deadServer)
      reversedParams).scans.map fun a ↦ (a.start, a.stop)) = [(5, 3), (5, 2147483651)] ∧
    ¬(runSync sampleCrypto (fun _ ↦ sampleRuntime) (fun _ ↦ deadServer)
      reversedParams).Harmless reversedParams := by
  have hplan : retryPlan 5 3 0 = .error .panic := retryPlan_eq_error (by decide)
  have hscans : ((runSync sampleCrypto (fun _ ↦ sampleRuntime) (fun _ ↦ deadServer)
      reversedParams).scans.map fun a ↦ (a.start, a.stop)) = [(5, 3), (5, 2147483651)] := by
    decide +kernel
  refine ⟨hplan, hscans, fun h ↦ ?_⟩
  have hmem : ((5 : UInt32), (2147483651 : UInt32)) ∈ (runSync sampleCrypto
      (fun _ ↦ sampleRuntime) (fun _ ↦ deadServer) reversedParams).scans.map
        fun a ↦ (a.start, a.stop) := by
    rw [hscans]
    decide
  obtain ⟨a, ha, hrange⟩ := List.mem_map.mp hmem
  have hstart : a.start = 5 := congrArg Prod.fst hrange
  have hstop : a.stop = 2147483651 := congrArg Prod.snd hrange
  have hrequests : a.Requests 6 := by
    rw [Attempt.Requests, hstart, hstop]
    decide
  exact absurd (h.requests a ha 6 hrequests).2 (by decide)

end Unchecked

end LedgerZcash
