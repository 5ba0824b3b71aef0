import LedgerZcash.Lib.Bisect
import LedgerZcash.Sync.Outcome

/-!
# The retry queue

`runSync` scans a range; when a scan fails with a transient error and the range's budget
is not spent, the range is replaced at the front of the queue by its two halves, each one
retry further.  The `n`-th scan is given to the loop as a function of `n`, since the
server and the runtime may differ from one attempt to the next.  The back-off sleep is
left out.

The loop records every scan it makes (`Attempt`), so that what the callbacks saw can be
read off the run.
-/

namespace LedgerZcash

open Hex Collect

/-! ## Transient errors -/

/-- `to_lowercase`, as far as a search for ASCII text can tell: ASCII letters, and the two
other characters whose lower case has an ASCII letter in it. -/
def toLowercase (s : String) : List Char :=
  s.toList.flatMap fun c ↦
    if c = Char.ofNat 0x212A then ['k']
    else if c = Char.ofNat 0x130 then ['i', Char.ofNat 0x307]
    else [c.toLower]

theorem toLowercase_append (s t : String) :
    toLowercase (s ++ t) = toLowercase s ++ toLowercase t := by
  rw [toLowercase, String.toList_append, List.flatMap_append]
  rfl

/-- `s.contains(marker)`. -/
def containsText (s : List Char) (marker : String) : Bool :=
  s.tails.any fun t ↦ marker.toList.isPrefixOf t

theorem containsText_iff {s : List Char} {marker : String} :
    containsText s marker = true ↔ marker.toList <:+: s := by
  rw [containsText, List.any_eq_true, List.infix_iff_prefix_suffix]
  refine exists_congr fun t ↦ ?_
  rw [List.mem_tails, List.isPrefixOf_iff_prefix, and_comm]

/-- Whether an error is transient and worth retrying with a smaller range. -/
def isRetryableError (text : String) : Bool :=
  let s := toLowercase text
  containsText s "timeout"
    || containsText s "deadline"
    || containsText s "timed out"
    || containsText s "503"
    || containsText s "service unavailable"
    || (containsText s "internal error" && containsText s "compression flag")
    || containsText s "h2 protocol error"
    || containsText s "connection reset"
    || containsText s "broken pipe"

/-- A panic is not an `Err`: nothing retries it. -/
def Failure.retryable : Failure → Bool
  | .error msg => isRetryableError msg
  | .panic => false

/-! ## The loop -/

/-- One scan that the loop made. -/
structure Attempt where
  start : UInt32
  stop : UInt32
  attempts : UInt32
  outcome : Except ScanFailure ScanOutput

/-- What the loop returned, and the scans it made, in order. -/
structure RetryRun where
  result : Except Failure SyncResult
  scans : List Attempt

/-- Add a scan to the front of what follows it. -/
def RetryRun.after (a : Attempt) (r : RetryRun) : RetryRun := { r with scans := a :: r.scans }

/-- Extend the combined result by that of one sub-range. -/
def SyncResult.extend (combined r : SyncResult) : SyncResult where
  transactions := combined.transactions ++ r.transactions
  blocksScanned := asU32 (combined.blocksScanned + r.blocksScanned)
  spentKnownNullifiers := combined.spentKnownNullifiers ++ r.spentKnownNullifiers

def cannotSplit (s e maxRetries : UInt32) : Failure :=
  .error ("chunk " ++ s.toNat.repr ++ ".." ++ e.toNat.repr ++ " timed out after " ++
    maxRetries.toNat.repr ++ " retries and cannot be split further")

/-- What a queue entry still costs: the scans of the tree below it. -/
def queueWeight (maxRetries : UInt32) (entry : UInt32 × UInt32 × UInt32) : Nat :=
  2 ^ (maxRetries.toNat - entry.2.2.toNat + 1) - 1

theorem queueWeight_pos (maxRetries : UInt32) (entry : UInt32 × UInt32 × UInt32) :
    0 < queueWeight maxRetries entry := by
  have h : 1 < 2 ^ (maxRetries.toNat - entry.2.2.toNat + 1) :=
    Nat.one_lt_two_pow (Nat.succ_ne_zero _)
  unfold queueWeight
  omega

/-- The halves of a range cost less than the range. -/
theorem queueWeight_halves {maxRetries attempts : UInt32} (h : attempts < maxRetries)
    (s m m' e s' e' : UInt32) :
    queueWeight maxRetries (s, m, attempts + 1) + queueWeight maxRetries (m', e, attempts + 1) <
      queueWeight maxRetries (s', e', attempts) := by
  have hlt : attempts.toNat < maxRetries.toNat := UInt32.lt_iff_toNat_lt.mp h
  have hmax := maxRetries.toNat_lt
  have hsucc : (attempts + 1).toNat = attempts.toNat + 1 := by
    rw [UInt32.toNat_add, UInt32.toNat_one]
    omega
  have hpow : 2 ^ (maxRetries.toNat - attempts.toNat + 1) =
      2 * 2 ^ (maxRetries.toNat - (attempts.toNat + 1) + 1) := by
    rw [← Nat.pow_succ']
    congr 1
    omega
  have hpos := Nat.two_pow_pos (maxRetries.toNat - (attempts.toNat + 1) + 1)
  simp only [queueWeight, hsucc, hpow]
  omega

/-- The loop of `runSync`, with its queue, the result so far, and the number of scans
made before. -/
def retryLoop (scan : Nat → UInt32 → UInt32 → Except ScanFailure ScanOutput)
    (maxRetries : UInt32) (n : Nat) (queue : List (UInt32 × UInt32 × UInt32))
    (combined : SyncResult) : RetryRun :=
  match queue with
  | [] => { result := .ok combined, scans := [] }
  | (s, e, attempts) :: queue =>
      match scan n s e with
      | .ok out =>
          (retryLoop scan maxRetries (n + 1) queue (combined.extend out.result)).after
            ⟨s, e, attempts, .ok out⟩
      | .error err =>
          if err.failure.retryable = true ∧ attempts < maxRetries then
            let blockCount := e - s + 1
            if 1 < blockCount then
              let mid := s + blockCount / 2 - 1
              (retryLoop scan maxRetries (n + 1)
                ((s, mid, attempts + 1) :: (mid + 1, e, attempts + 1) :: queue) combined).after
                  ⟨s, e, attempts, .error err⟩
            else
              { result := .error (cannotSplit s e maxRetries)
                scans := [⟨s, e, attempts, .error err⟩] }
          else { result := .error err.failure, scans := [⟨s, e, attempts, .error err⟩] }
termination_by (queue.map (queueWeight maxRetries)).sum
decreasing_by
  · have h := queueWeight_pos maxRetries (s, e, attempts)
    simp only [List.map_cons, List.sum_cons]
    omega
  · have h := queueWeight_halves ‹err.failure.retryable = true ∧ attempts < maxRetries›.2
      s (s + (e - s + 1) / 2 - 1) (s + (e - s + 1) / 2 - 1 + 1) e s e
    simp only [List.map_cons, List.sum_cons]
    omega

/-! ### Runs that return a result -/

/-- The scans of a run that succeeded, with their ranges. -/
def RetryRun.succeeded (r : RetryRun) : List ((UInt32 × UInt32) × ScanOutput) :=
  r.scans.filterMap fun a ↦ a.outcome.toOption.map fun out ↦ ((a.start, a.stop), out)

@[simp] theorem RetryRun.result_after (a : Attempt) (r : RetryRun) :
    (r.after a).result = r.result := rfl

@[simp] theorem RetryRun.scans_after (a : Attempt) (r : RetryRun) :
    (r.after a).scans = a :: r.scans := rfl

@[simp] theorem RetryRun.succeeded_after_ok (s e attempts : UInt32) (out : ScanOutput)
    (r : RetryRun) : (r.after ⟨s, e, attempts, .ok out⟩).succeeded = ((s, e), out) :: r.succeeded :=
  rfl

@[simp] theorem RetryRun.succeeded_after_error (s e attempts : UInt32) (err : ScanFailure)
    (r : RetryRun) : (r.after ⟨s, e, attempts, .error err⟩).succeeded = r.succeeded :=
  rfl

section Induction

variable {scan : Nat → UInt32 → UInt32 → Except ScanFailure ScanOutput} {maxRetries : UInt32}

/-- The run rule, one case a branch of the loop. -/
theorem retryLoop_rec
    {motive : Nat → List (UInt32 × UInt32 × UInt32) → SyncResult → RetryRun → Prop}
    (done : ∀ n combined, motive n [] combined ⟨.ok combined, []⟩)
    (scanned : ∀ n s e attempts queue combined out r, scan n s e = .ok out →
      motive (n + 1) queue (combined.extend out.result) r →
      motive n ((s, e, attempts) :: queue) combined (r.after ⟨s, e, attempts, .ok out⟩))
    (split : ∀ n s e attempts queue combined err r, scan n s e = .error err →
      err.failure.retryable = true → attempts < maxRetries → 1 < e - s + 1 →
      motive (n + 1) ((s, s + (e - s + 1) / 2 - 1, attempts + 1) ::
        (s + (e - s + 1) / 2 - 1 + 1, e, attempts + 1) :: queue) combined r →
      motive n ((s, e, attempts) :: queue) combined (r.after ⟨s, e, attempts, .error err⟩))
    (stuck : ∀ n s e attempts queue combined err, scan n s e = .error err →
      err.failure.retryable = true → attempts < maxRetries → ¬ 1 < e - s + 1 →
      motive n ((s, e, attempts) :: queue) combined
        ⟨.error (cannotSplit s e maxRetries), [⟨s, e, attempts, .error err⟩]⟩)
    (stopped : ∀ n s e attempts queue combined err, scan n s e = .error err →
      ¬ (err.failure.retryable = true ∧ attempts < maxRetries) →
      motive n ((s, e, attempts) :: queue) combined
        ⟨.error err.failure, [⟨s, e, attempts, .error err⟩]⟩)
    (n : Nat) (queue : List (UInt32 × UInt32 × UInt32)) (combined : SyncResult) :
    motive n queue combined (retryLoop scan maxRetries n queue combined) := by
  induction n, queue, combined using retryLoop.induct scan maxRetries with
  | case1 n combined =>
      rw [retryLoop]
      exact done n combined
  | case2 n combined s e attempts queue out hout ih =>
      rw [retryLoop]
      simp only [hout]
      exact scanned _ _ _ _ _ _ _ _ hout ih
  | case3 n combined s e attempts queue err herr hretry blockCount hcount mid ih =>
      rw [retryLoop]
      simp only [herr, if_pos hretry, if_pos (show 1 < e - s + 1 from hcount)]
      exact split _ _ _ _ _ _ _ _ herr hretry.1 hretry.2 hcount ih
  | case4 n combined s e attempts queue err herr hretry blockCount hcount =>
      rw [retryLoop]
      simp only [herr, if_pos hretry, if_neg (show ¬ 1 < e - s + 1 from hcount)]
      exact stuck _ _ _ _ _ _ _ herr hretry.1 hretry.2 hcount
  | case5 n combined s e attempts queue err herr hretry =>
      rw [retryLoop]
      simp only [herr, if_neg hretry]
      exact stopped _ _ _ _ _ _ _ herr hretry

/-- What holds of the empty queue, and is kept by a successful scan and by a split, holds of
every run that returns a result. -/
theorem retryLoop_induction {res : SyncResult}
    {motive : Nat → List (UInt32 × UInt32 × UInt32) → SyncResult →
      List ((UInt32 × UInt32) × ScanOutput) → Prop}
    (done : ∀ n, motive n [] res [])
    (scanned : ∀ n s e attempts queue combined out outs, scan n s e = .ok out →
      motive (n + 1) queue (combined.extend out.result) outs →
      motive n ((s, e, attempts) :: queue) combined (((s, e), out) :: outs))
    (split : ∀ n s e attempts queue combined err outs, scan n s e = .error err →
      attempts < maxRetries → 1 < e - s + 1 →
      motive (n + 1) ((s, s + (e - s + 1) / 2 - 1, attempts + 1) ::
        (s + (e - s + 1) / 2 - 1 + 1, e, attempts + 1) :: queue) combined outs →
      motive n ((s, e, attempts) :: queue) combined outs)
    {n : Nat} {queue : List (UInt32 × UInt32 × UInt32)} {combined : SyncResult}
    (h : (retryLoop scan maxRetries n queue combined).result = .ok res) :
    motive n queue combined (retryLoop scan maxRetries n queue combined).succeeded := by
  refine retryLoop_rec (motive := fun n queue combined r ↦ r.result = .ok res →
    motive n queue combined r.succeeded) ?_ ?_ ?_ ?_ ?_ n queue combined h
  · intro n combined h
    cases h
    exact done n
  · intro n s e attempts queue combined out r hout ih h
    exact scanned _ _ _ _ _ _ _ _ hout (ih h)
  · intro n s e attempts queue combined err r herr _ hlt hcount ih h
    exact split _ _ _ _ _ _ _ _ herr hlt hcount (ih h)
  · intro n s e attempts queue combined err _ _ _ _ h
    cases h
  · intro n s e attempts queue combined err _ _ h
    cases h

end Induction

/-! ## The entry point -/

/-- The parameters of a sub-range; no re-entry. -/
def SyncParams.sub (p : SyncParams) (s e : UInt32) : SyncParams :=
  { p with startHeight := s, endHeight := e, maxRetries := none }

def emptyResult : SyncResult :=
  { transactions := [], blocksScanned := 0, spentKnownNullifiers := [] }

/-- Scan a range of compact blocks, retrying transient errors on smaller ranges. -/
def runSync (U : NoteCrypto) (rts : Nat → Runtime) (srvs : Nat → Server) (p : SyncParams) :
    RetryRun :=
  let maxRetries := p.maxRetries.getD 0
  if maxRetries = 0 then
    let outcome := runSyncInner U (rts 0) (srvs 0) p
    { result := (outcome.map ScanOutput.result).mapError ScanFailure.failure
      scans := [⟨p.startHeight, p.endHeight, 0, outcome⟩] }
  else
    retryLoop (fun n s e ↦ runSyncInner U (rts n) (srvs n) (p.sub s e)) maxRetries 0
      [(p.startHeight, p.endHeight, 0)] emptyResult

end LedgerZcash
