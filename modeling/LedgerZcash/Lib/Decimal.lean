import Mathlib.Data.List.Basic

/-!
# Decimal text

Numbers as decimal digits: written plainly or padded with zeros, and read back.  `parseUnsigned`
and `parseSigned` read what an integer type of a given size holds; one sign in front is part of
a number, a blank or a separator is not.  `parseChecked` reads digit by digit and says what is
wrong with a text; it accepts the same texts (`parseChecked_eq_ok`).
-/

namespace LedgerZcash.Decimal

/-- The number that a list of digits writes; there must be one. -/
def readDigits (cs : List Char) : Option Nat :=
  if cs ≠ [] ∧ cs.all Char.isDigit then some (Nat.ofDigitChars 10 cs 0) else none

/-- The digits of a number, with zeros in front up to a width. -/
def padded (width n : Nat) : List Char :=
  List.replicate (width - (Nat.toDigits 10 n).length) '0' ++ Nat.toDigits 10 n

/-- An unsigned number below `size`. -/
def parseUnsigned (size : Nat) (cs : List Char) : Option Nat :=
  match cs with
  | '+' :: cs => (readDigits cs).filter (· < size)
  | cs => (readDigits cs).filter (· < size)

/-- A number from `-half` to `half - 1`. -/
def parseSigned (half : Nat) (cs : List Char) : Option Int :=
  match cs with
  | '-' :: cs => ((readDigits cs).filter (· ≤ half)).map fun n ↦ -(n : Int)
  | cs => (parseUnsigned half cs).map Int.ofNat

/-- Why a text is no number of a type. -/
inductive IntErrorKind where
  | empty
  | invalidDigit
  | posOverflow
deriving DecidableEq, Repr

def IntErrorKind.toString : IntErrorKind → String
  | .empty => "cannot parse integer from empty string"
  | .invalidDigit => "invalid digit found in string"
  | .posOverflow => "number too large to fit in target type"

/-- One more digit, with the checks of a type that holds `size` numbers. -/
def pushDigit (size n : Nat) (c : Char) : Except IntErrorKind Nat :=
  if c.isDigit then
    if 10 * n + (c.toNat - '0'.toNat) < size then .ok (10 * n + (c.toNat - '0'.toNat))
    else .error .posOverflow
  else .error .invalidDigit

/-- An unsigned number below `size`, from its first digit to its last. -/
def parseChecked (size : Nat) (cs : List Char) : Except IntErrorKind Nat :=
  match cs with
  | [] => .error .empty
  | ['+'] | ['-'] => .error .invalidDigit
  | '+' :: cs => cs.foldlM (pushDigit size) 0
  | cs => cs.foldlM (pushDigit size) 0

/-! ## What is written -/

theorem isDigit_of_mem_padded {width n : Nat} {c : Char} (h : c ∈ padded width n) :
    c.isDigit = true := by
  rcases List.mem_append.mp h with h | h
  · rw [List.eq_of_mem_replicate h]
    rfl
  · exact Nat.isDigit_of_mem_toDigits (by decide) (by decide) h

/-- A character that is no digit is not in a number. -/
theorem notMem_padded {width n : Nat} {c : Char} (h : c.isDigit = false) : c ∉ padded width n :=
  fun hmem ↦ absurd (isDigit_of_mem_padded hmem) (by rw [h]; decide)

@[simp] theorem padded_ne_nil (width n : Nat) : padded width n ≠ [] :=
  List.append_ne_nil_of_right_ne_nil _ (List.ne_nil_of_length_pos Nat.length_toDigits_pos)

/-- Without a width nothing is padded. -/
theorem padded_zero (n : Nat) : padded 0 n = n.repr.toList := by
  rw [padded, Nat.zero_sub, List.replicate_zero, List.nil_append, Nat.repr_eq_ofList_toDigits,
    String.toList_ofList]

/-! ## What is read -/

/-- A number reads back, however it was padded. -/
@[simp] theorem readDigits_padded (width n : Nat) : readDigits (padded width n) = some n := by
  have hall : (padded width n).all Char.isDigit = true :=
    List.all_eq_true.mpr fun c hc ↦ isDigit_of_mem_padded hc
  rw [readDigits, if_pos ⟨padded_ne_nil width n, hall⟩, padded, Nat.ofDigitChars_append,
    Nat.ofDigitChars_replicate_zero, Nat.mul_zero, Nat.ofDigitChars_ten_toDigits]

theorem isDigit_of_readDigits {cs : List Char} {n : Nat} (h : readDigits cs = some n) {c : Char}
    (hc : c ∈ cs) : c.isDigit = true := by
  unfold readDigits at h
  split at h
  · rename_i hcs
    exact List.all_eq_true.mp hcs.2 c hc
  · cases h

/-- A number without a sign reads back when it fits. -/
theorem parseUnsigned_padded {size width n : Nat} (h : n < size) :
    parseUnsigned size (padded width n) = some n := by
  unfold parseUnsigned
  split
  · rename_i cs heq
    exact absurd (heq ▸ List.mem_cons_self) (notMem_padded (by decide))
  · rw [readDigits_padded, Option.filter_some, if_pos (decide_eq_true h)]

theorem parseSigned_padded {half width n : Nat} (h : n < half) :
    parseSigned half (padded width n) = some (n : Int) := by
  unfold parseSigned
  split
  · rename_i cs heq
    exact absurd (heq ▸ List.mem_cons_self) (notMem_padded (by decide))
  · rw [parseUnsigned_padded h]
    rfl

theorem parseUnsigned_lt {size n : Nat} {cs : List Char} (h : parseUnsigned size cs = some n) :
    n < size := by
  unfold parseUnsigned at h
  split at h <;> simpa using (Option.filter_eq_some_iff.mp h).2

/-- A text with a character that is neither a digit nor a sign is no number. -/
theorem parseUnsigned_eq_none {size : Nat} {cs : List Char} {c : Char} (hc : c ∈ cs)
    (hdigit : c.isDigit = false) (hplus : c ≠ '+') : parseUnsigned size cs = none := by
  have hnone : ∀ ds : List Char, c ∈ ds → readDigits ds = none := by
    intro ds hds
    by_contra hsome
    obtain ⟨n, hn⟩ := Option.ne_none_iff_exists'.mp hsome
    exact absurd (isDigit_of_readDigits hn hds) (by rw [hdigit]; decide)
  unfold parseUnsigned
  split
  · rename_i ds
    rw [hnone ds ((List.mem_cons.mp hc).resolve_left hplus)]
    rfl
  · rw [hnone cs hc]
    rfl

/-! ## Digit by digit -/

theorem le_ofDigitChars (cs : List Char) (n : Nat) : n ≤ Nat.ofDigitChars 10 cs n := by
  induction cs generalizing n with
  | nil => exact Nat.le_refl n
  | cons c cs ih =>
      rw [Nat.ofDigitChars_cons]
      have hmul : n ≤ 10 * n := Nat.le_mul_of_pos_left n (by decide)
      exact Nat.le_trans (Nat.le_trans hmul (Nat.le_add_right _ _)) (ih _)

/-- The checks pass when all are digits and the number that they write fits. -/
theorem foldlM_pushDigit {size n m : Nat} (hn : n < size) (cs : List Char) :
    cs.foldlM (pushDigit size) n = .ok m ↔
      cs.all Char.isDigit = true ∧ Nat.ofDigitChars 10 cs n = m ∧ m < size := by
  induction cs generalizing n with
  | nil =>
      simp only [List.foldlM_nil, List.all_nil, Nat.ofDigitChars_nil, true_and]
      constructor
      · rintro ⟨⟩
        exact ⟨rfl, hn⟩
      · rintro ⟨rfl, -⟩
        rfl
  | cons c cs ih =>
      rw [List.foldlM_cons, pushDigit, List.all_cons, Nat.ofDigitChars_cons]
      by_cases hdigit : c.isDigit = true
      · rw [if_pos hdigit, hdigit, Bool.true_and]
        by_cases hfits : 10 * n + (c.toNat - '0'.toNat) < size
        · rw [if_pos hfits]
          exact ih hfits
        · rw [if_neg hfits]
          refine ⟨nofun, ?_⟩
          rintro ⟨-, rfl, hlt⟩
          -- the number only grows with further digits
          exact absurd (Nat.lt_of_le_of_lt (le_ofDigitChars cs _) hlt) hfits
      · rw [if_neg hdigit, Bool.eq_false_iff.mpr hdigit, Bool.false_and]
        exact ⟨nofun, nofun⟩

/-- What is read digit by digit is the number that the text writes. -/
theorem parseChecked_eq_ok {size n : Nat} (hsize : 0 < size) {cs : List Char} :
    parseChecked size cs = .ok n ↔ parseUnsigned size cs = some n := by
  have hread : ∀ ds : List Char, ds ≠ [] →
      (ds.foldlM (pushDigit size) 0 = .ok n ↔ (readDigits ds).filter (· < size) = some n) := by
    intro ds hds
    rw [foldlM_pushDigit hsize, readDigits, Option.filter_eq_some_iff]
    by_cases hall : ds.all Char.isDigit = true
    · simp [hall, hds]
    · simp [hall]
  unfold parseChecked
  split
  · exact ⟨nofun, nofun⟩
  · exact ⟨nofun, nofun⟩
  · exact ⟨nofun, nofun⟩
  · rename_i ds hplus
    exact hread ds (by rintro rfl; exact hplus rfl)
  · rename_i hnil hplus hminus hsign
    rw [hread _ hnil]
    unfold parseUnsigned
    split
    · rename_i ds
      exact absurd rfl (hsign ds)
    · rfl

theorem parseChecked_repr {size n : Nat} (h : n < size) :
    parseChecked size n.repr.toList = .ok n := by
  rw [parseChecked_eq_ok (Nat.zero_lt_of_lt h), ← padded_zero, parseUnsigned_padded h]

end LedgerZcash.Decimal
