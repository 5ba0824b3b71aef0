import LedgerZcash.Lib.Words
import LedgerZcash.Sync.Retry

/-!
# What a fetch error is classified by

When `GetTransaction` fails, the error names the transaction next to the status, and
`isRetryableError` searches the whole text.  No marker crosses from one part of the text to
another, and of all markers only `503` can be written in hexadecimal digits.  So a fetch error
is retried when its status is transient, or when the transaction id has these digits
(`isRetryableError_fetchText`).
-/

namespace LedgerZcash

open Hex Collect Words

/-! ## Transaction ids -/

/-- The digits of a transaction id. -/
def hexDigits : List Char := "0123456789abcdef".toList

theorem digit_mem_hexDigits (n : UInt8) (h : n < 16) : digit n ∈ hexDigits := by
  have key : ∀ k : Fin 16, digit (UInt8.ofNat k) ∈ hexDigits := by decide
  have hn : n = UInt8.ofNat n.toNat := by simp
  rw [hn]
  exact key ⟨n.toNat, by simpa using UInt8.lt_iff_toNat_lt.mp h⟩

theorem mem_hexDigits_of_mem_encode {bs : List UInt8} {c : Char} (h : c ∈ (encode bs).toList) :
    c ∈ hexDigits := by
  rw [encode, String.toList_ofList] at h
  obtain ⟨b, -, hc⟩ := List.mem_flatMap.mp h
  obtain ⟨hhi, hlo, -⟩ := halves b
  rcases List.mem_pair.mp hc with rfl | rfl
  · exact digit_mem_hexDigits _ hhi
  · exact digit_mem_hexDigits _ hlo

/-- The digits are lower-case. -/
theorem toLowercase_encode (bs : List UInt8) : toLowercase (encode bs) = (encode bs).toList := by
  have hlower : (hexDigits.all fun c ↦
      (if c = Char.ofNat 0x212A then ['k']
        else if c = Char.ofNat 0x130 then ['i', Char.ofNat 0x307] else [c.toLower]) == [c]) =
      true := by
    decide
  refine (List.flatMap_congr fun c hc ↦ ?_).trans (List.flatMap_singleton' _)
  exact beq_iff_eq.mp (List.all_eq_true.mp hlower c (mem_hexDigits_of_mem_encode hc))

/-! ## The text of a fetch error -/

/-- What stands before the transaction id, in lower case. -/
def fetchNotice : List Char := "gettransaction failed for ".toList

/-- The text of a failed `GetTransaction`. -/
def fetchText (txid : List UInt8) (status : String) : String :=
  "GetTransaction failed for " ++ displayHex txid ++ ": " ++ status

theorem toLowercase_fetchText (txid : List UInt8) (status : String) :
    toLowercase (fetchText txid status) =
      fetchNotice ++ (displayHex txid).toList ++ ':' :: ' ' :: toLowercase status := by
  have hnotice : toLowercase "GetTransaction failed for " = fetchNotice := rfl
  have hcolon : toLowercase ": " = [':', ' '] := rfl
  show toLowercase ("GetTransaction failed for " ++ displayHex txid ++ ": " ++ status) = _
  rw [toLowercase_append ("GetTransaction failed for " ++ displayHex txid ++ ": ") status,
    toLowercase_append ("GetTransaction failed for " ++ displayHex txid) ": ",
    toLowercase_append "GetTransaction failed for " (displayHex txid), hnotice, hcolon,
    displayHex, toLowercase_encode, List.append_assoc _ [':', ' ']]
  rfl

variable {txid : List UInt8} {status marker : String}

/-- A marker is found before the status or in it. -/
theorem containsText_fetchText (hcolon : ':' ∉ marker.toList)
    (hblank : marker.toList.head? ≠ some ' ') (hne : marker.toList ≠ []) :
    containsText (toLowercase (fetchText txid status)) marker =
      (decide (marker.toList <:+: fetchNotice ++ (displayHex txid).toList) ||
        containsText (toLowercase status) marker) := by
  rw [Bool.eq_iff_iff, Bool.or_eq_true, decide_eq_true_iff, containsText_iff, containsText_iff,
    toLowercase_fetchText, infix_append_cons_iff hcolon, List.infix_cons_iff]
  refine or_congr_right (or_iff_right fun hprefix ↦ ?_)
  cases hmarker : marker.toList with
  | nil => exact hne hmarker
  | cons c rest =>
      rw [hmarker] at hprefix
      obtain ⟨rfl, -⟩ := List.cons_prefix_cons.mp hprefix
      exact hblank (by rw [hmarker]; rfl)

/-- A marker with a letter that is no digit is not found before the status, unless all of it up
to that letter is found before the transaction id. -/
theorem containsText_fetchText_of_letter (txid : List UInt8) (status marker : String)
    (w : List Char) (x : Char) (rest : List Char) (hmarker : marker.toList = w ++ x :: rest)
    (hletter : x ∉ hexDigits ∧ ¬w ++ [x] <:+: fetchNotice)
    (hapart : ':' ∉ marker.toList ∧ marker.toList.head? ≠ some ' ') :
    containsText (toLowercase (fetchText txid status)) marker =
      containsText (toLowercase status) marker := by
  have hx' : x ∉ (displayHex txid).toList := mt mem_hexDigits_of_mem_encode hletter.1
  have hnot : ¬marker.toList <:+: fetchNotice ++ (displayHex txid).toList := by
    rw [hmarker]
    exact not_infix_append hx' hletter.2
  have hne : marker.toList ≠ [] := by
    rw [hmarker]
    simp
  rw [containsText_fetchText hapart.1 hapart.2 hne, decide_eq_false hnot, Bool.false_or]

/-- The digits `503` of a transaction id are found like those of a status. -/
theorem containsText_fetchText_503 :
    containsText (toLowercase (fetchText txid status)) "503" =
      (containsText (displayHex txid).toList "503" ||
        containsText (toLowercase status) "503") := by
  have hnotice : fetchNotice = "gettransaction failed for".toList ++ [' '] := by decide
  have hcut : fetchNotice ++ (displayHex txid).toList =
      "gettransaction failed for".toList ++ ' ' :: (displayHex txid).toList := by
    rw [hnotice, List.append_assoc, List.singleton_append]
  rw [containsText_fetchText (by decide) (by decide) (by decide)]
  congr 1
  rw [Bool.eq_iff_iff, decide_eq_true_iff, containsText_iff, hcut,
    infix_append_cons_iff (by decide)]
  exact or_iff_right (by decide)

/-- A fetch error is transient when its status is, or when the digits of the transaction id
read `503`. -/
theorem isRetryableError_fetchText : isRetryableError (fetchText txid status) =
    (containsText (displayHex txid).toList "503" || isRetryableError status) := by
  have htimeout := containsText_fetchText_of_letter txid status "timeout"
    "timeou".toList 't' [] rfl (by decide) (by decide)
  have hdeadline := containsText_fetchText_of_letter txid status "deadline"
    "deadli".toList 'n' ['e'] rfl (by decide) (by decide)
  have htimedOut := containsText_fetchText_of_letter txid status "timed out"
    "timed ou".toList 't' [] rfl (by decide) (by decide)
  have hunavailable := containsText_fetchText_of_letter txid status "service unavailable"
    "service unavailab".toList 'l' ['e'] rfl (by decide) (by decide)
  have hinternal := containsText_fetchText_of_letter txid status "internal error"
    "internal erro".toList 'r' [] rfl (by decide) (by decide)
  have hflag := containsText_fetchText_of_letter txid status "compression flag"
    "compression fla".toList 'g' [] rfl (by decide) (by decide)
  have hprotocol := containsText_fetchText_of_letter txid status "h2 protocol error"
    "h2 protocol erro".toList 'r' [] rfl (by decide) (by decide)
  have hreset := containsText_fetchText_of_letter txid status "connection reset"
    "connection rese".toList 't' [] rfl (by decide) (by decide)
  have hpipe := containsText_fetchText_of_letter txid status "broken pipe"
    "broken pi".toList 'p' ['e'] rfl (by decide) (by decide)
  simp only [isRetryableError, containsText_fetchText_503, htimeout, hdeadline, htimedOut,
    hunavailable, hinternal, hflag, hprotocol, hreset, hpipe, Bool.or_assoc, Bool.or_left_comm]

/-! ## Failed fetches -/

/-- The error of a failed `GetTransaction`. -/
def fetchError (txid : List UInt8) (status : String) : Failure := .error (fetchText txid status)

/-- The digits `503` are in the transaction id. -/
def Reads503 (txid : List UInt8) : Prop := containsText (displayHex txid).toList "503" = true

instance (txid : List UInt8) : Decidable (Reads503 txid) :=
  inferInstanceAs (Decidable (_ = true))

/-- The status of a failed `GetTransaction` ends in the error of the fetch. -/
theorem fetchAndDecryptTx_eq_error {U : NoteCrypto} {srv : Server} {ufvk : U.Ufvk}
    {network : Network} {ctx : BlockFetchCtx} (htxid : ctx.txidHex = displayHex txid)
    (h : srv.getTransaction ctx.height txid = .error status) :
    fetchAndDecryptTx U srv ufvk network ctx = .error (fetchError txid status) := by
  rw [fetchAndDecryptTx, htxid, displayHex, decode_encode]
  show orFail (srv.getTransaction ctx.height txid.reverse.reverse) _ >>= _ = _
  rw [List.reverse_reverse, h]
  rfl

theorem retryable_fetchError :
    (fetchError txid status).retryable = true ↔ Reads503 txid ∨ isRetryableError status = true := by
  rw [Reads503, ← Bool.or_eq_true, ← isRetryableError_fetchText]
  rfl

section Loop

variable {scan : Nat → UInt32 → UInt32 → Except ScanFailure ScanOutput} {maxRetries : UInt32}

/-- The loop makes a scan as long as its queue is not empty. -/
theorem retryLoop_scans_ne_nil {queue : List (UInt32 × UInt32 × UInt32)} (hne : queue ≠ [])
    (n : Nat) (combined : SyncResult) :
    (retryLoop scan maxRetries n queue combined).scans ≠ [] := by
  refine retryLoop_rec (motive := fun _ queue _ r ↦ queue ≠ [] → r.scans ≠ []) ?_ ?_ ?_ ?_ ?_
    n queue combined hne
  · intro _ _ h
    exact absurd rfl h
  all_goals
    intros
    exact List.cons_ne_nil _ _

/-- A scan that fails ends the loop with its own error, and is the last one, exactly when the
error is not retried. -/
theorem retryLoop_eq_error {n : Nat} {s e attempts : UInt32} {err : ScanFailure}
    (h : scan n s e = .error err) (hstuck : err.failure ≠ cannotSplit s e maxRetries)
    (queue : List (UInt32 × UInt32 × UInt32)) (combined : SyncResult) :
    retryLoop scan maxRetries n ((s, e, attempts) :: queue) combined =
        ⟨.error err.failure, [⟨s, e, attempts, .error err⟩]⟩ ↔
      ¬(err.failure.retryable = true ∧ attempts < maxRetries) := by
  rw [retryLoop]
  simp only [h]
  split
  · rename_i hretry
    refine iff_of_false (fun heq ↦ ?_) (not_not.mpr hretry)
    split at heq
    · have hscans := congrArg RetryRun.scans heq
      rw [RetryRun.scans_after, List.cons.injEq] at hscans
      exact retryLoop_scans_ne_nil (List.cons_ne_nil _ _) _ _ hscans.2
    · have hresult := congrArg RetryRun.result heq
      exact hstuck (Except.error.inj hresult).symm
  · rename_i hretry
    exact iff_of_true rfl hretry

end Loop

/-! ## The decision -/

theorem fetchError_ne_cannotSplit (s e maxRetries : UInt32) :
    fetchError txid status ≠ cannotSplit s e maxRetries := by
  have hfetch : (fetchText txid status).toList.head? = some 'G' := by
    show ("GetTransaction failed for " ++ displayHex txid ++ ": " ++ status).toList.head? = _
    simp only [String.toList_append, List.append_assoc]
    rfl
  have hchunk : ∀ rest : String, ("chunk " ++ rest).toList.head? = some 'c' := by
    intro rest
    rw [String.toList_append]
    rfl
  intro h
  have htext := Failure.error.inj h
  simp only [String.append_assoc] at htext
  rw [htext, hchunk] at hfetch
  cases hfetch

/-- Two transactions whose fetch fails with one status are classified alike exactly when the
status is transient, or when both ids have the digits `503` or neither.  The class is that of
the status, and a permanent status ends the loop at once, exactly when the status is transient
or the id does not have them. -/
theorem classified_iff (U : NoteCrypto) (ufvk : U.Ufvk) (network : Network)
    (srv srv' : Server) (ctx ctx' : BlockFetchCtx) {txid txid' : List UInt8} {status : String}
    (htxid : ctx.txidHex = displayHex txid) (htxid' : ctx'.txidHex = displayHex txid')
    (h : srv.getTransaction ctx.height txid = .error status)
    (h' : srv'.getTransaction ctx'.height txid' = .error status) :
    ∃ f f', fetchAndDecryptTx U srv ufvk network ctx = .error f ∧
      fetchAndDecryptTx U srv' ufvk network ctx' = .error f' ∧
      (f.retryable = f'.retryable ↔
        isRetryableError status = true ∨ (Reads503 txid ↔ Reads503 txid')) ∧
      (f.retryable = isRetryableError status ↔
        isRetryableError status = true ∨ ¬Reads503 txid) ∧
      ∀ (scan : Nat → UInt32 → UInt32 → Except ScanFailure ScanOutput) (maxRetries : UInt32)
        (n : Nat) (s e attempts : UInt32) (queue : List (UInt32 × UInt32 × UInt32))
        (combined : SyncResult) (blocksDone : Nat), scan n s e = .error ⟨f, blocksDone⟩ →
        attempts < maxRetries →
        ((isRetryableError status = false →
            retryLoop scan maxRetries n ((s, e, attempts) :: queue) combined =
              ⟨.error f, [⟨s, e, attempts, .error ⟨f, blocksDone⟩⟩]⟩) ↔
          isRetryableError status = true ∨ ¬Reads503 txid) := by
  refine ⟨fetchError txid status, fetchError txid' status, fetchAndDecryptTx_eq_error htxid h,
    fetchAndDecryptTx_eq_error htxid' h', ?_, ?_, ?_⟩
  · rw [Bool.eq_iff_iff, retryable_fetchError, retryable_fetchError]
    by_cases hstatus : isRetryableError status = true
    · simp only [hstatus, or_true, true_or]
    · simp only [hstatus, Bool.false_eq_true, or_false, false_or]
  · rw [Bool.eq_iff_iff, retryable_fetchError]
    by_cases hstatus : isRetryableError status = true
    · simp only [hstatus, or_true, true_or]
    · simp only [hstatus, Bool.false_eq_true, or_false, false_or, iff_false]
  · intro scan maxRetries n s e attempts queue combined blocksDone hscan hlt
    rw [retryLoop_eq_error hscan (fetchError_ne_cannotSplit s e maxRetries), retryable_fetchError]
    by_cases hstatus : isRetryableError status = true
    · simp only [hstatus, reduceCtorEq, false_implies, true_or]
    · simp only [hstatus, hlt, Bool.false_eq_true, or_false, false_or, and_true, true_implies]

/-! ## Two missing transactions -/

section Sample

/-- A server that knows no transaction. -/
def missingServer : Server :=
  { sampleServer with getTransaction := fun _ _ ↦ .error "code: 'Some entity was not found'" }

/-- A transaction id that ends in two given bytes, and is shown with them in front. -/
def sampleTxid (a b : UInt8) : List UInt8 := List.replicate 30 0 ++ [b, a]

/-- Where a transaction of block 1 is fetched from. -/
def missingCtx (txid : List UInt8) : BlockFetchCtx :=
  ⟨displayHex txid, 1, "01", 10, some 0, 0, none, 0⟩

theorem fetchAndDecryptTx_missing (txid : List UInt8) :
    fetchAndDecryptTx sampleCrypto missingServer () .testNetwork (missingCtx txid) =
      .error (fetchError txid "code: 'Some entity was not found'") :=
  fetchAndDecryptTx_eq_error rfl rfl

/-- One id begins with `503f`, the other with `504f`. -/
theorem missing_retried : ∃ f f',
    fetchAndDecryptTx sampleCrypto missingServer () .testNetwork
      (missingCtx (sampleTxid 0x50 0x3f)) = .error f ∧ f.retryable = true ∧
    fetchAndDecryptTx sampleCrypto missingServer () .testNetwork
      (missingCtx (sampleTxid 0x50 0x4f)) = .error f' ∧ f'.retryable = false := by
  have hstatus : isRetryableError "code: 'Some entity was not found'" = false := by decide +kernel
  have hfirst : Reads503 (sampleTxid 0x50 0x3f) := by decide +kernel
  have hsecond : ¬Reads503 (sampleTxid 0x50 0x4f) := by decide +kernel
  refine ⟨_, _, fetchAndDecryptTx_missing _, retryable_fetchError.mpr (.inl hfirst),
    fetchAndDecryptTx_missing _, Bool.eq_false_iff.mpr fun h ↦ ?_⟩
  rcases retryable_fetchError.mp h with h | h
  · exact hsecond h
  · exact Bool.false_ne_true (hstatus.symm.trans h)

theorem classified_iff_missing : ∃ f f',
    fetchAndDecryptTx sampleCrypto missingServer () .testNetwork
      (missingCtx (sampleTxid 0x50 0x4f)) = .error f ∧
    fetchAndDecryptTx sampleCrypto missingServer () .testNetwork
      (missingCtx (sampleTxid 0x50 0x5f)) = .error f' ∧ f.retryable = f'.retryable := by
  have hneither : Reads503 (sampleTxid 0x50 0x4f) ↔ Reads503 (sampleTxid 0x50 0x5f) := by
    decide +kernel
  obtain ⟨f, f', hf, hf', heq, -, -⟩ := classified_iff sampleCrypto () .testNetwork missingServer
    missingServer (missingCtx (sampleTxid 0x50 0x4f)) (missingCtx (sampleTxid 0x50 0x5f)) rfl rfl
    rfl rfl
  exact ⟨f, f', hf, hf', heq.mpr (.inr hneither)⟩

end Sample

end LedgerZcash
