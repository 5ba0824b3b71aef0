import LedgerZcash.Sync.Splits

/-!
# The retry budget

A run that ends in a transient error should have tried some height `maxRetries + 1` times.
A range is split before each retry, though, and one that cannot be split any more is given
up at its first failure, whatever is left of its budget.  So the budget is honoured exactly
in the runs where that does not happen (`honoursBudget_iff`), and in all runs exactly when
the range is large enough to be halved `maxRetries` times (`retryBudget_iff`).
-/

namespace LedgerZcash

open Hex Collect

/-! ## The budget of a run -/

/-- The scan failed, and the height is in its range. -/
def Attempt.failedAt (h : Nat) (a : Attempt) : Bool :=
  !a.outcome.isOk && decide (a.start.toNat ≤ h ∧ h ≤ a.stop.toNat)

/-- How many failed scans of the run a height was part of. -/
def RetryRun.failuresAt (r : RetryRun) (h : Nat) : Nat := r.scans.countP (Attempt.failedAt h)

/-- A transient error is returned only after some height was part of `maxRetries + 1` failed
scans: the first attempt and the retries. -/
def RetryRun.HonoursBudget (maxRetries : UInt32) (r : RetryRun) : Prop :=
  ∀ err, r.result = .error err → err.retryable = true →
    ∃ h, maxRetries.toNat + 1 ≤ r.failuresAt h

/-- The scan failed with a transient error, and there are retries left, but the range has no
halves: `block_count` is one, or zero where it wraps around on the range of all heights. -/
def Attempt.GivesUp (maxRetries : UInt32) (a : Attempt) : Prop :=
  (∃ err, a.outcome = .error err ∧ err.failure.retryable = true) ∧ a.attempts < maxRetries ∧
    ¬ 1 < a.stop - a.start + 1

/-! ## The error text of a range that cannot be split -/

/-- The text says "timed out", so the error is a transient one again. -/
theorem cannotSplit_retryable (s e maxRetries : UInt32) :
    (cannotSplit s e maxRetries).retryable = true := by
  have hmarker : "timed out".toList <:+: toLowercase " timed out after " := by decide
  have h : containsText (toLowercase ("chunk " ++ s.toNat.repr ++ ".." ++ e.toNat.repr ++
      " timed out after " ++ maxRetries.toNat.repr ++ " retries and cannot be split further"))
      "timed out" = true := by
    rw [containsText_iff]
    simp only [toLowercase_append]
    exact List.infix_append_of_infix_left
      (List.infix_append_of_infix_left (List.infix_append_of_infix_right hmarker))
  simp only [cannotSplit, Failure.retryable, isRetryableError, h, Bool.or_true, Bool.true_or]

/-! ## Failed scans, height by height -/

section Loop

variable {scan : Nat → UInt32 → UInt32 → Except ScanFailure ScanOutput} {maxRetries : UInt32}

/-- `failed h` is the number of failed scans of `h` so far; for a height that is still queued
it is the number of attempts of its range. -/
structure Budgeted (maxRetries : UInt32) (failed : Nat → Nat)
    (queue : List (UInt32 × UInt32 × UInt32)) : Prop where
  entries : ∀ x ∈ queue, x.1 ≤ x.2.1 ∧ x.2.2 ≤ maxRetries ∧
    ∀ h, x.1.toNat ≤ h → h ≤ x.2.1.toNat → failed h = x.2.2.toNat
  ascending : queue.Pairwise fun x y ↦ x.2.1.toNat < y.1.toNat
  bounded : ∀ h, failed h ≤ maxRetries.toNat

theorem toNat_succ_of_lt {a b : UInt32} (h : a < b) : (a + 1).toNat = a.toNat + 1 := by
  have hlt : a.toNat < b.toNat := UInt32.lt_iff_toNat_lt.mp h
  have hb := b.toNat_lt
  rw [UInt32.toNat_add, UInt32.toNat_one]
  omega

/-- One more failure on every height of a range. -/
def addFailure (s e : UInt32) (failed : Nat → Nat) (h : Nat) : Nat :=
  failed h + if s.toNat ≤ h ∧ h ≤ e.toNat then 1 else 0

namespace Budgeted

variable {failed : Nat → Nat} {queue : List (UInt32 × UInt32 × UInt32)} {s e attempts : UInt32}

theorem start (h : s ≤ e) : Budgeted maxRetries (fun _ ↦ 0) [(s, e, 0)] where
  entries := List.forall_mem_singleton.mpr
    ⟨h, UInt32.le_iff_toNat_le.mpr (Nat.zero_le _), fun _ _ _ ↦ rfl⟩
  ascending := List.pairwise_singleton _ _
  bounded _ := Nat.zero_le _

/-- What holds of the entry at the front. -/
theorem head (h : Budgeted maxRetries failed ((s, e, attempts) :: queue)) :
    s ≤ e ∧ ∀ n, s.toNat ≤ n → n ≤ e.toNat → failed n = attempts.toNat :=
  ⟨(h.entries _ List.mem_cons_self).1, (h.entries _ List.mem_cons_self).2.2⟩

theorem tail (h : Budgeted maxRetries failed ((s, e, attempts) :: queue)) :
    Budgeted maxRetries failed queue where
  entries x hx := h.entries x (List.mem_cons_of_mem _ hx)
  ascending := (List.pairwise_cons.mp h.ascending).2
  bounded := h.bounded

/-- A split counts the failure on both halves, and on nothing else in the queue. -/
theorem split (h : Budgeted maxRetries failed ((s, e, attempts) :: queue))
    (hlt : attempts < maxRetries) (hcount : 1 < e - s + 1) :
    Budgeted maxRetries (addFailure s e failed)
      ((s, s + (e - s + 1) / 2 - 1, attempts + 1) ::
        (s + (e - s + 1) / 2 - 1 + 1, e, attempts + 1) :: queue) := by
  obtain ⟨hse, hfailed⟩ := h.head
  obtain ⟨hafter, hqueue⟩ := List.pairwise_cons.mp h.ascending
  obtain ⟨hlt', hmid, hmid'⟩ := toNat_mid hse hcount
  have hle := Bisect.le_mid hlt'
  have hme := Bisect.mid_lt hlt'
  have hsucc := toNat_succ_of_lt hlt
  have hin : ∀ n, s.toNat ≤ n → n ≤ e.toNat → addFailure s e failed n = (attempts + 1).toNat := by
    intro n h1 h2
    rw [addFailure, if_pos ⟨h1, h2⟩, hfailed n h1 h2, hsucc]
  have hmax : attempts + 1 ≤ maxRetries := by
    rw [UInt32.le_iff_toNat_le, hsucc]
    exact UInt32.lt_iff_toNat_lt.mp hlt
  refine ⟨?_, ?_, ?_⟩
  · simp only [List.forall_mem_cons]
    refine ⟨⟨?_, hmax, fun n h1 h2 ↦ hin n h1 ?_⟩, ⟨?_, hmax, fun n h1 h2 ↦ hin n ?_ h2⟩, ?_⟩
    · rwa [UInt32.le_iff_toNat_le, hmid]
    · omega
    · rw [UInt32.le_iff_toNat_le, hmid']
      omega
    · omega
    · intro x hx
      obtain ⟨hx1, hx2, hx3⟩ := h.entries x (List.mem_cons_of_mem _ hx)
      refine ⟨hx1, hx2, fun n h1 h2 ↦ ?_⟩
      have hex : e.toNat < x.1.toNat := hafter x hx
      rw [addFailure, if_neg (by omega), hx3 n h1 h2, Nat.add_zero]
  · refine List.pairwise_cons.mpr ⟨?_, List.pairwise_cons.mpr ⟨hafter, hqueue⟩⟩
    simp only [List.forall_mem_cons]
    refine ⟨by omega, fun x hx ↦ ?_⟩
    have hex : e.toNat < x.1.toNat := hafter x hx
    omega
  · intro n
    unfold addFailure
    split
    · rename_i hn
      rw [hfailed n hn.1 hn.2]
      exact UInt32.lt_iff_toNat_lt.mp hlt
    · exact h.bounded n

end Budgeted

theorem failuresAt_after_ok (s e attempts : UInt32) (out : ScanOutput) (r : RetryRun) (h : Nat) :
    (r.after ⟨s, e, attempts, .ok out⟩).failuresAt h = r.failuresAt h := by
  simp [RetryRun.failuresAt, RetryRun.after, Attempt.failedAt, Except.isOk, Except.toBool]

theorem failuresAt_after_error (s e attempts : UInt32) (err : ScanFailure) (r : RetryRun)
    (failed : Nat → Nat) (h : Nat) :
    failed h + (r.after ⟨s, e, attempts, .error err⟩).failuresAt h =
      addFailure s e failed h + r.failuresAt h := by
  simp only [RetryRun.failuresAt, RetryRun.after, List.countP_cons, Attempt.failedAt, Except.isOk,
    Except.toBool, addFailure, Bool.not_false, Bool.true_and, decide_eq_true_eq]
  omega

/-- A run is within its budget exactly when none of its scans gives up. -/
theorem budget_iff_of_budgeted (n : Nat) (queue : List (UInt32 × UInt32 × UInt32))
    (combined : SyncResult) (failed : Nat → Nat) (hq : Budgeted maxRetries failed queue) :
    (∀ err, (retryLoop scan maxRetries n queue combined).result = .error err →
        err.retryable = true → ∃ h, maxRetries.toNat + 1 ≤
          failed h + (retryLoop scan maxRetries n queue combined).failuresAt h) ↔
      ∀ a ∈ (retryLoop scan maxRetries n queue combined).scans, ¬ a.GivesUp maxRetries := by
  revert failed
  refine retryLoop_rec (motive := fun _ queue _ r ↦ ∀ failed, Budgeted maxRetries failed queue →
    ((∀ err, r.result = .error err → err.retryable = true →
      ∃ h, maxRetries.toNat + 1 ≤ failed h + r.failuresAt h) ↔
        ∀ a ∈ r.scans, ¬ a.GivesUp maxRetries)) ?_ ?_ ?_ ?_ ?_ n queue combined
  · intro n combined failed _
    exact ⟨fun _ a ha ↦ absurd ha List.not_mem_nil, fun _ err h ↦ nomatch h⟩
  · intro n s e attempts queue combined out r _ ih failed hq
    have hok : ¬ Attempt.GivesUp maxRetries ⟨s, e, attempts, .ok out⟩ := by
      rintro ⟨⟨err, h, -⟩, -⟩
      cases h
    simp only [failuresAt_after_ok, RetryRun.result_after, RetryRun.scans_after,
      List.forall_mem_cons, hok, not_false_eq_true, true_and]
    exact ih failed hq.tail
  · intro n s e attempts queue combined err r _ _ hlt hcount ih failed hq
    have hsplit : ¬ Attempt.GivesUp maxRetries ⟨s, e, attempts, .error err⟩ :=
      fun h ↦ h.2.2 hcount
    simp only [failuresAt_after_error, RetryRun.result_after, RetryRun.scans_after,
      List.forall_mem_cons, hsplit, not_false_eq_true, true_and]
    exact ih _ (hq.split hlt hcount)
  · -- the range is given up: no height has failed often enough
    intro n s e attempts queue combined err _ hretry hlt hcount failed hq
    have hgives : Attempt.GivesUp maxRetries ⟨s, e, attempts, .error err⟩ :=
      ⟨⟨err, rfl, hretry⟩, hlt, hcount⟩
    refine iff_of_false (fun h ↦ ?_) fun h ↦ h _ List.mem_cons_self hgives
    obtain ⟨k, hk⟩ := h _ rfl (cannotSplit_retryable s e maxRetries)
    obtain ⟨-, hfailed⟩ := hq.head
    have hlt' : attempts.toNat < maxRetries.toNat := UInt32.lt_iff_toNat_lt.mp hlt
    have hb := hq.bounded k
    have hadd : failed k + RetryRun.failuresAt ⟨.error (cannotSplit s e maxRetries),
        [⟨s, e, attempts, .error err⟩]⟩ k = addFailure s e failed k :=
      failuresAt_after_error s e attempts err ⟨.error (cannotSplit s e maxRetries), []⟩ failed k
    rw [hadd, addFailure] at hk
    split at hk
    · rename_i hin
      have := hfailed k hin.1 hin.2
      omega
    · omega
  · -- the budget is spent, or the error is not transient
    intro n s e attempts queue combined err _ hstop failed hq
    have hnot : ¬ Attempt.GivesUp maxRetries ⟨s, e, attempts, .error err⟩ := by
      rintro ⟨⟨err', h, hretry⟩, hlt, -⟩
      cases h
      exact hstop ⟨hretry, hlt⟩
    refine iff_of_true ?_ (List.forall_mem_singleton.mpr hnot)
    rintro err' h hretry
    cases h
    obtain ⟨hse, hfailed⟩ := hq.head
    have hspent : maxRetries.toNat ≤ attempts.toNat :=
      Nat.not_lt.mp fun h ↦ hstop ⟨hretry, UInt32.lt_iff_toNat_lt.mpr h⟩
    have hse' : s.toNat ≤ e.toNat := UInt32.le_iff_toNat_le.mp hse
    refine ⟨s.toNat, ?_⟩
    have hadd : failed s.toNat + RetryRun.failuresAt ⟨.error err.failure,
        [⟨s, e, attempts, .error err⟩]⟩ s.toNat = addFailure s e failed s.toNat :=
      failuresAt_after_error s e attempts err ⟨.error err.failure, []⟩ failed s.toNat
    rw [hadd, addFailure, if_pos ⟨le_rfl, hse'⟩, hfailed _ le_rfl hse']
    omega

/-! ## Ranges that can always be halved -/

/-- The number of blocks of a range of heights. -/
def rangeSize (s e : UInt32) : Nat := e.toNat - s.toNat + 1

/-- The code's `block_count` is the size of the range, except for the range of all heights,
where it is zero. -/
theorem one_lt_blockCount_iff {s e : UInt32} (h : s ≤ e) :
    1 < e - s + 1 ↔ 1 < rangeSize s e ∧ rangeSize s e < u32Size := by
  have hle : s.toNat ≤ e.toNat := UInt32.le_iff_toNat_le.mp h
  have he := e.toNat_lt
  rw [UInt32.lt_iff_toNat_lt, UInt32.toNat_add, UInt32.toNat_sub_of_le _ _ h, UInt32.toNat_one,
    rangeSize, u32Size]
  omega

/-- The halves of a range of at least `2 * k` blocks have at least `k` each. -/
theorem rangeSize_halves {s e : UInt32} (h : s ≤ e) (hcount : 1 < e - s + 1) :
    rangeSize s (s + (e - s + 1) / 2 - 1) = rangeSize s e / 2 ∧
      rangeSize (s + (e - s + 1) / 2 - 1 + 1) e = rangeSize s e - rangeSize s e / 2 := by
  obtain ⟨hlt, hmid, hmid'⟩ := toNat_mid h hcount
  simp only [rangeSize, hmid, hmid', Bisect.mid]
  omega

/-- Every queued range can still be halved as often as its budget asks. -/
def Divisible (maxRetries : UInt32) (queue : List (UInt32 × UInt32 × UInt32)) : Prop :=
  ∀ x ∈ queue, x.1 ≤ x.2.1 ∧ 2 ^ (maxRetries.toNat - x.2.2.toNat) ≤ rangeSize x.1 x.2.1 ∧
    rangeSize x.1 x.2.1 < u32Size

/-- The budget of the halves, in powers of two. -/
theorem two_pow_halves {attempts : UInt32} (h : attempts < maxRetries) :
    2 ^ (maxRetries.toNat - attempts.toNat) =
      2 * 2 ^ (maxRetries.toNat - (attempts + 1).toNat) := by
  have hlt : attempts.toNat < maxRetries.toNat := UInt32.lt_iff_toNat_lt.mp h
  rw [toNat_succ_of_lt h, ← Nat.pow_succ']
  congr 1
  omega

/-- Both halves are ranges. -/
theorem halves_le {s e : UInt32} (h : s ≤ e) (hcount : 1 < e - s + 1) :
    s ≤ s + (e - s + 1) / 2 - 1 ∧ s + (e - s + 1) / 2 - 1 + 1 ≤ e := by
  obtain ⟨hlt, hmid, hmid'⟩ := toNat_mid h hcount
  have hle := Bisect.le_mid hlt
  have hme := Bisect.mid_lt hlt
  rw [UInt32.le_iff_toNat_le, UInt32.le_iff_toNat_le, hmid, hmid']
  exact ⟨hle, hme⟩

theorem Divisible.head {queue : List (UInt32 × UInt32 × UInt32)} {s e attempts : UInt32}
    (h : Divisible maxRetries ((s, e, attempts) :: queue)) :
    s ≤ e ∧ 2 ^ (maxRetries.toNat - attempts.toNat) ≤ rangeSize s e ∧ rangeSize s e < u32Size :=
  h _ List.mem_cons_self

theorem Divisible.split {queue : List (UInt32 × UInt32 × UInt32)} {s e attempts : UInt32}
    (h : Divisible maxRetries ((s, e, attempts) :: queue)) (hlt : attempts < maxRetries)
    (hcount : 1 < e - s + 1) :
    Divisible maxRetries ((s, s + (e - s + 1) / 2 - 1, attempts + 1) ::
      (s + (e - s + 1) / 2 - 1 + 1, e, attempts + 1) :: queue) := by
  obtain ⟨hse, hsize, hmax⟩ := h.head
  obtain ⟨hfirst, hsecond⟩ := rangeSize_halves hse hcount
  obtain ⟨hle, hle'⟩ := halves_le hse hcount
  rw [two_pow_halves hlt] at hsize
  refine List.forall_mem_cons.mpr ⟨⟨hle, ?_⟩, List.forall_mem_cons.mpr ⟨⟨hle', ?_⟩,
    (List.forall_mem_cons.mp h).2⟩⟩
  · simp only [hfirst]
    omega
  · simp only [hsecond]
    omega

/-- No scan of such a run gives up. -/
theorem not_givesUp_of_divisible (n : Nat) (queue : List (UInt32 × UInt32 × UInt32))
    (combined : SyncResult) (hq : Divisible maxRetries queue) :
    ∀ a ∈ (retryLoop scan maxRetries n queue combined).scans, ¬ a.GivesUp maxRetries := by
  revert hq
  refine retryLoop_rec (motive := fun _ queue _ r ↦ Divisible maxRetries queue →
    ∀ a ∈ r.scans, ¬ a.GivesUp maxRetries) ?_ ?_ ?_ ?_ ?_ n queue combined
  · intro n combined _ a ha
    exact absurd ha List.not_mem_nil
  · intro n s e attempts queue combined out r _ ih hq
    refine List.forall_mem_cons.mpr ⟨?_, ih (List.forall_mem_cons.mp hq).2⟩
    rintro ⟨⟨err, h, -⟩, -⟩
    cases h
  · intro n s e attempts queue combined err r _ _ hlt hcount ih hq
    exact List.forall_mem_cons.mpr ⟨fun h ↦ h.2.2 hcount, ih (hq.split hlt hcount)⟩
  · intro n s e attempts queue combined err _ _ hlt hcount hq
    obtain ⟨hse, hsize, hmax⟩ := hq.head
    have hlt' : attempts.toNat < maxRetries.toNat := UInt32.lt_iff_toNat_lt.mp hlt
    have hpow : 1 < 2 ^ (maxRetries.toNat - attempts.toNat) := Nat.one_lt_two_pow (by omega)
    exact absurd ((one_lt_blockCount_iff hse).mpr ⟨hpow.trans_le hsize, hmax⟩) hcount
  · intro n s e attempts queue combined err _ hstop _
    refine List.forall_mem_singleton.mpr ?_
    rintro ⟨⟨err', h, hretry⟩, hlt, -⟩
    cases h
    exact hstop ⟨hretry, hlt⟩

/-- The range runs out of halves before its budget is spent. -/
def TooSmall (maxRetries : UInt32) (entry : UInt32 × UInt32 × UInt32) : Prop :=
  entry.1 ≤ entry.2.1 ∧ entry.2.2 < maxRetries ∧
    (rangeSize entry.1 entry.2.1 < 2 ^ (maxRetries.toNat - entry.2.2.toNat) ∨
      u32Size ≤ rangeSize entry.1 entry.2.1)

/-- So does its first half. -/
theorem TooSmall.split {s e attempts : UInt32} (h : TooSmall maxRetries (s, e, attempts))
    (hcount : 1 < e - s + 1) : TooSmall maxRetries (s, s + (e - s + 1) / 2 - 1, attempts + 1) := by
  obtain ⟨hse, hlt, hsize⟩ := h
  dsimp only at hse hlt hsize
  have hcount' := (one_lt_blockCount_iff hse).mp hcount
  obtain ⟨hfirst, -⟩ := rangeSize_halves hse hcount
  rw [two_pow_halves hlt] at hsize
  have hhalf : rangeSize s e / 2 < 2 ^ (maxRetries.toNat - (attempts + 1).toNat) := by omega
  refine ⟨(halves_le hse hcount).1, ?_, Or.inl ?_⟩
  · rw [UInt32.lt_iff_toNat_lt]
    by_contra hle
    rw [Nat.sub_eq_zero_of_le (Nat.not_lt.mp hle), pow_zero] at hhalf
    omega
  · simp only [hfirst]
    exact hhalf

/-- When every scan fails, such a range is given up. -/
theorem exists_givesUp {err : ScanFailure} (hfail : ∀ n s e, scan n s e = .error err)
    (hretry : err.failure.retryable = true) (n : Nat) (queue : List (UInt32 × UInt32 × UInt32))
    (combined : SyncResult) {entry : UInt32 × UInt32 × UInt32}
    (hentry : queue.head? = some entry) (hsmall : TooSmall maxRetries entry) :
    ∃ a ∈ (retryLoop scan maxRetries n queue combined).scans, a.GivesUp maxRetries := by
  revert entry
  refine retryLoop_rec (motive := fun _ queue _ r ↦ ∀ {entry : UInt32 × UInt32 × UInt32},
    queue.head? = some entry → TooSmall maxRetries entry →
      ∃ a ∈ r.scans, a.GivesUp maxRetries) ?_ ?_ ?_ ?_ ?_ n queue combined
  · intro n combined entry h
    cases h
  · intro n s e attempts queue combined out r hout
    cases (hfail n s e).symm.trans hout
  · intro n s e attempts queue combined err' r _ _ _ hcount ih entry h hsmall
    cases h
    obtain ⟨a, ha, hgives⟩ := ih rfl (hsmall.split hcount)
    exact ⟨a, List.mem_cons_of_mem _ ha, hgives⟩
  · intro n s e attempts queue combined err' _ hretry' hlt hcount entry _ _
    exact ⟨_, List.mem_cons_self, ⟨err', rfl, hretry'⟩, hlt, hcount⟩
  · intro n s e attempts queue combined err' herr hstop entry h hsmall
    cases h
    cases (hfail n s e).symm.trans herr
    exact absurd ⟨hretry, hsmall.2.1⟩ hstop

end Loop

/-! ## The run -/

section Run

variable {U : NoteCrypto} {p : SyncParams} {maxRetries : UInt32}

theorem runSync_eq_loop (rts : Nat → Runtime) (srvs : Nat → Server)
    (hm : p.maxRetries = some maxRetries) (hpos : 1 ≤ maxRetries) :
    runSync U rts srvs p =
      retryLoop (fun n s e ↦ runSyncInner U (rts n) (srvs n) (p.sub s e)) maxRetries 0
        [(p.startHeight, p.endHeight, 0)] emptyResult := by
  have hne : maxRetries ≠ 0 := by
    rintro rfl
    exact absurd hpos (by decide)
  simp [runSync, hm, hne]

/-- A run honours its budget exactly when none of its scans gives up. -/
theorem honoursBudget_iff (rts : Nat → Runtime) (srvs : Nat → Server)
    (hle : p.startHeight ≤ p.endHeight) (hm : p.maxRetries = some maxRetries)
    (hpos : 1 ≤ maxRetries) :
    (runSync U rts srvs p).HonoursBudget maxRetries ↔
      ∀ a ∈ (runSync U rts srvs p).scans, ¬ a.GivesUp maxRetries := by
  rw [runSync_eq_loop rts srvs hm hpos, ← budget_iff_of_budgeted 0 _ _ _ (.start hle)]
  simp only [Nat.zero_add]
  rfl

/-- A server that no connection reaches. -/
def deadServer : Server := { sampleServer with connect := .error "timeout" }

theorem runSyncInner_deadServer {v : View U} (hv : p.view U = .ok v) (rt : Runtime)
    (s e : UInt32) : runSyncInner U rt deadServer (p.sub s e) = .error ⟨.error "timeout", 0⟩ := by
  have hkeys : parseSyncKeys U (p.sub s e).network (p.sub s e).viewingKey =
      .ok (v.network, prepareIvksOf U v.ufvk, v.ufvk) := (parseSyncKeys_of_view hv).1
  simp only [runSyncInner, hkeys]
  rfl

/-- Every run of a range honours its budget, whatever fails, exactly when the range can be
halved that often: when it has at least `2 ^ maxRetries` blocks and its size fits a `u32`.
In general a run does when no range is given up. -/
theorem retryBudget_iff {v : View U} (hv : p.view U = .ok v) (hle : p.startHeight ≤ p.endHeight)
    (hm : p.maxRetries = some maxRetries) (hpos : 1 ≤ maxRetries) :
    (∀ rts srvs, (runSync U rts srvs p).HonoursBudget maxRetries ↔
      ∀ a ∈ (runSync U rts srvs p).scans, ¬ a.GivesUp maxRetries) ∧
    ((∀ rts srvs, (runSync U rts srvs p).HonoursBudget maxRetries) ↔
      2 ^ maxRetries.toNat ≤ rangeSize p.startHeight p.endHeight ∧
        rangeSize p.startHeight p.endHeight < u32Size) := by
  have hiff := fun rts srvs ↦ honoursBudget_iff (U := U) rts srvs hle hm hpos
  refine ⟨hiff, fun h ↦ ?_, fun hsize rts srvs ↦ ?_⟩
  · by_contra hsmall
    have hentry : TooSmall maxRetries (p.startHeight, p.endHeight, 0) := by
      refine ⟨hle, UInt32.lt_of_lt_of_le (show (0 : UInt32) < 1 by decide) hpos, ?_⟩
      rcases not_and_or.mp hsmall with h | h
      · exact Or.inl (Nat.not_le.mp h)
      · exact Or.inr (Nat.not_lt.mp h)
    obtain ⟨a, ha, hgives⟩ := exists_givesUp
      (fun n s e ↦ runSyncInner_deadServer hv sampleRuntime s e) (by decide) 0
      [(p.startHeight, p.endHeight, 0)] emptyResult rfl hentry
    rw [← runSync_eq_loop (fun _ ↦ sampleRuntime) (fun _ ↦ deadServer) hm hpos] at ha
    exact (hiff _ _).mp (h _ _) a ha hgives
  · rw [hiff, runSync_eq_loop rts srvs hm hpos]
    exact not_givesUp_of_divisible 0 _ _ (List.forall_mem_singleton.mpr ⟨hle, hsize⟩)

/-! ### A single block -/

def singleBlockParams : SyncParams := { sampleParams 1 1 with maxRetries := some 3 }

/-- One block, three retries, and a server that is never reached: the run ends after one
scan, with a text that says "timed out after 3 retries". -/
theorem single_block_not_retried :
    (runSync sampleCrypto (fun _ ↦ sampleRuntime) (fun _ ↦ deadServer) singleBlockParams).result =
      .error (.error "chunk 1..1 timed out after 3 retries and cannot be split further") ∧
    ¬ (runSync sampleCrypto (fun _ ↦ sampleRuntime) (fun _ ↦ deadServer)
      singleBlockParams).HonoursBudget 3 := by
  have hscan : runSyncInner sampleCrypto sampleRuntime deadServer (singleBlockParams.sub 1 1) =
      .error ⟨.error "timeout", 0⟩ :=
    runSyncInner_deadServer (v := sampleView) rfl sampleRuntime 1 1
  have hrun : runSync sampleCrypto (fun _ ↦ sampleRuntime) (fun _ ↦ deadServer) singleBlockParams =
      { result := .error (cannotSplit 1 1 3)
        scans := [⟨1, 1, 0, .error ⟨.error "timeout", 0⟩⟩] } := by
    rw [runSync_eq_loop _ _ rfl (by decide), retryLoop]
    simp only [singleBlockParams, sampleParams] at hscan ⊢
    rw [hscan]
    rfl
  rw [hrun]
  refine ⟨by decide, fun h ↦ ?_⟩
  obtain ⟨height, hcount⟩ := h _ rfl (cannotSplit_retryable 1 1 3)
  have hone := List.countP_le_length (p := Attempt.failedAt height)
    (l := [⟨1, 1, 0, .error ⟨.error "timeout", 0⟩⟩])
  exact absurd (hcount.trans hone) (by decide)

/-- The range of that one block. -/
theorem retryBudget_iff_single :
    (∀ rts srvs, (runSync sampleCrypto rts srvs singleBlockParams).HonoursBudget 3) ↔
      2 ^ 3 ≤ 1 ∧ 1 < u32Size :=
  (retryBudget_iff (v := sampleView) rfl (by decide) rfl (by decide)).2

end Run

end LedgerZcash
