import Mathlib.Tactic

/-!
# The proleptic Gregorian calendar

Dates from year 0 on, each with the proof that it exists, and their count of days: the lengths of
the years, months and days before them, added up.  Different dates have different counts
(`dayNumber_inj`).  In years that begin in March the leap day comes last, and the count has a
closed form (`dayNumber_march`).
-/

namespace LedgerZcash.Calendar

/-- Every fourth year, but of the centuries only every fourth. -/
def IsLeap (y : Nat) : Prop := y % 4 = 0 ∧ (y % 100 ≠ 0 ∨ y % 400 = 0)

instance (y : Nat) : Decidable (IsLeap y) := inferInstanceAs (Decidable (_ ∧ _))

def yearLength (y : Nat) : Nat := if IsLeap y then 366 else 365

def monthLength (y m : Nat) : Nat :=
  match m with
  | 2 => if IsLeap y then 29 else 28
  | 4 | 6 | 9 | 11 => 30
  | _ => 31

@[ext]
structure Date where
  year : Nat
  month : Nat
  day : Nat
  one_le_month : 1 ≤ month
  month_le : month ≤ 12
  one_le_day : 1 ≤ day
  day_le : day ≤ monthLength year month
deriving DecidableEq

/-- The days from the beginning of year 0 to the beginning of a year. -/
def daysBeforeYear (y : Nat) : Nat := ((List.range y).map yearLength).sum

/-- The days of a year before a month. -/
def daysBeforeMonth (y m : Nat) : Nat := ((List.range' 1 (m - 1)).map (monthLength y)).sum

/-- The days since the first of January of year 0. -/
def Date.dayNumber (date : Date) : Nat :=
  daysBeforeYear date.year + daysBeforeMonth date.year date.month + (date.day - 1)

/-! ## Years and months -/

theorem daysBeforeYear_succ (y : Nat) :
    daysBeforeYear (y + 1) = daysBeforeYear y + yearLength y := by
  rw [daysBeforeYear, List.range_succ, List.map_append, List.sum_append, List.map_singleton,
    List.sum_singleton, daysBeforeYear]

theorem daysBeforeYear_mono : Monotone daysBeforeYear :=
  monotone_nat_of_le_succ fun y ↦ daysBeforeYear_succ y ▸ Nat.le_add_right _ _

theorem daysBeforeMonth_succ {y m : Nat} (h : 1 ≤ m) :
    daysBeforeMonth y (m + 1) = daysBeforeMonth y m + monthLength y m := by
  obtain ⟨n, rfl⟩ := Nat.exists_eq_add_of_le' h
  rw [daysBeforeMonth, Nat.add_sub_cancel, List.range'_1_concat, List.map_append, List.sum_append,
    List.map_singleton, List.sum_singleton, daysBeforeMonth, Nat.add_sub_cancel, Nat.add_comm 1 n]

theorem daysBeforeMonth_mono {y m m' : Nat} (h : 1 ≤ m) (hle : m ≤ m') :
    daysBeforeMonth y m ≤ daysBeforeMonth y m' := by
  induction m', hle using Nat.le_induction with
  | base => exact le_rfl
  | succ m' hle ih =>
      rw [daysBeforeMonth_succ (h.trans hle)]
      exact ih.trans (Nat.le_add_right _ _)

/-- The months from January on, as they add up; February has 28 or 29 days. -/
theorem daysBeforeMonth_eq (y : Nat) {m : Nat} (h : 1 ≤ m) (hle : m ≤ 13) :
    daysBeforeMonth y m = if m ≤ 2 then 31 * (m - 1)
      else 31 + monthLength y 2 + (153 * (m - 3) + 2) / 5 := by
  interval_cases m <;> simp [daysBeforeMonth, List.range', monthLength, Nat.add_assoc]

/-- The twelve months make up the year. -/
theorem daysBeforeMonth_thirteen (y : Nat) : daysBeforeMonth y 13 = yearLength y := by
  rw [daysBeforeMonth_eq y (by decide) le_rfl, if_neg (by decide), monthLength, yearLength]
  split
  · rfl
  · rfl

/-- Only February differs. -/
theorem yearLength_eq (y : Nat) : yearLength y = 337 + monthLength y 2 := by
  unfold yearLength monthLength
  split <;> rfl

theorem monthLength_le (y m : Nat) : monthLength y m ≤ 31 := by
  unfold monthLength
  split
  · split <;> decide
  all_goals decide

/-! ## Counting days -/

namespace Date

variable (date : Date)

/-- A date lies in its month, -/
theorem lt_daysBeforeMonth : daysBeforeMonth date.year date.month + (date.day - 1) <
    daysBeforeMonth date.year (date.month + 1) := by
  rw [daysBeforeMonth_succ date.one_le_month]
  have hpos := date.one_le_day
  have hle := date.day_le
  omega

/-- and in its year. -/
theorem lt_daysBeforeYear : date.dayNumber < daysBeforeYear (date.year + 1) := by
  have hmonth := date.lt_daysBeforeMonth
  have hyear := daysBeforeMonth_mono (y := date.year) (Nat.le_add_left 1 date.month)
    (Nat.succ_le_succ date.month_le)
  rw [daysBeforeMonth_thirteen] at hyear
  rw [daysBeforeYear_succ, dayNumber]
  omega

theorem daysBeforeYear_le : daysBeforeYear date.year ≤ date.dayNumber :=
  (Nat.le_add_right _ _).trans (Nat.le_add_right _ _)

end Date

/-- A date is before another one when its year is, or its month in the same year, or its day in
the same month. -/
def Date.Before (a b : Date) : Prop :=
  a.year < b.year ∨ a.year = b.year ∧ (a.month < b.month ∨ a.month = b.month ∧ a.day < b.day)

instance (a b : Date) : Decidable (a.Before b) := inferInstanceAs (Decidable (_ ∨ _))

variable {a b : Date}

theorem Date.Before.dayNumber_lt (h : a.Before b) : a.dayNumber < b.dayNumber := by
  rcases h with hyear | ⟨hyear, hmonth | ⟨hmonth, hday⟩⟩
  · exact (a.lt_daysBeforeYear.trans_le (daysBeforeYear_mono hyear)).trans_le b.daysBeforeYear_le
  · have hlt := a.lt_daysBeforeMonth
    have hle := daysBeforeMonth_mono (y := b.year) (Nat.le_add_left 1 a.month) hmonth
    rw [Date.dayNumber, Date.dayNumber]
    rw [hyear] at hlt ⊢
    omega
  · have hpos := a.one_le_day
    rw [Date.dayNumber, Date.dayNumber, hyear, hmonth]
    omega

theorem Date.before_or_eq_or_before (a b : Date) : a.Before b ∨ a = b ∨ b.Before a := by
  rcases lt_trichotomy a.year b.year with hyear | hyear | hyear
  · exact .inl (.inl hyear)
  · rcases lt_trichotomy a.month b.month with hmonth | hmonth | hmonth
    · exact .inl (.inr ⟨hyear, .inl hmonth⟩)
    · rcases lt_trichotomy a.day b.day with hday | hday | hday
      · exact .inl (.inr ⟨hyear, .inr ⟨hmonth, hday⟩⟩)
      · exact .inr (.inl (Date.ext hyear hmonth hday))
      · exact .inr (.inr (.inr ⟨hyear.symm, .inr ⟨hmonth.symm, hday⟩⟩))
    · exact .inr (.inr (.inr ⟨hyear.symm, .inl hmonth⟩))
  · exact .inr (.inr (.inl hyear))

/-- The days are counted in order. -/
theorem Date.dayNumber_lt_iff : a.dayNumber < b.dayNumber ↔ a.Before b := by
  refine ⟨fun h ↦ ?_, Before.dayNumber_lt⟩
  rcases Date.before_or_eq_or_before a b with hab | rfl | hba
  · exact hab
  · exact absurd h (lt_irrefl _)
  · exact absurd (hba.dayNumber_lt.trans h) (lt_irrefl _)

/-- Two dates are never the same day. -/
theorem Date.dayNumber_inj : a.dayNumber = b.dayNumber ↔ a = b := by
  refine ⟨fun h ↦ ?_, congrArg dayNumber⟩
  rcases Date.before_or_eq_or_before a b with hab | hab | hba
  · exact absurd hab.dayNumber_lt (h ▸ lt_irrefl _)
  · exact hab
  · exact absurd hba.dayNumber_lt (h ▸ lt_irrefl _)

/-! ## Years from March on -/

/-- The days from the first of March of year 0 to that of another year. -/
def marchStart (y : Nat) : Nat := 365 * y + y / 4 - y / 100 + y / 400

theorem marchStart_succ (y : Nat) : marchStart (y + 1) = marchStart y + yearLength (y + 1) := by
  have h4 : (y + 1) / 4 = y / 4 + if 4 ∣ y + 1 then 1 else 0 := Nat.succ_div
  have h100 : (y + 1) / 100 = y / 100 + if 100 ∣ y + 1 then 1 else 0 := Nat.succ_div
  have h400 : (y + 1) / 400 = y / 400 + if 400 ∣ y + 1 then 1 else 0 := Nat.succ_div
  have hcenturies : y / 100 ≤ y := Nat.div_le_self _ _
  by_cases hleap : IsLeap (y + 1)
  · rw [marchStart, marchStart, yearLength, if_pos hleap, h4, h100, h400]
    obtain ⟨hfour, hcentury⟩ := hleap
    rw [if_pos (Nat.dvd_of_mod_eq_zero hfour)]
    rcases hcentury with hcentury | hcentury
    · rw [if_neg fun h ↦ hcentury (Nat.mod_eq_zero_of_dvd h), if_neg (by omega)]
      omega
    · rw [if_pos (by omega), if_pos (by omega)]
      omega
  · rw [marchStart, marchStart, yearLength, if_neg hleap, h4, h100, h400]
    by_cases hfour : 4 ∣ y + 1
    · have hcentury : (y + 1) % 100 = 0 ∧ (y + 1) % 400 ≠ 0 := by
        rw [IsLeap, not_and_or, not_or, not_not] at hleap
        exact hleap.resolve_left (not_not.mpr (Nat.mod_eq_zero_of_dvd hfour))
      rw [if_pos hfour, if_pos (Nat.dvd_of_mod_eq_zero hcentury.1),
        if_neg fun h ↦ hcentury.2 (Nat.mod_eq_zero_of_dvd h)]
      omega
    · rw [if_neg hfour, if_neg (by omega), if_neg (by omega)]
      omega

/-- Every day is in a year from March on. -/
theorem exists_marchStart {z n : Nat} (h : z < marchStart n) :
    ∃ y < n, marchStart y ≤ z ∧ z < marchStart (y + 1) := by
  induction n with
  | zero => exact absurd h (Nat.not_lt_zero z)
  | succ n ih =>
      by_cases hn : z < marchStart n
      · obtain ⟨y, hy, hz⟩ := ih hn
        exact ⟨y, Nat.lt_succ_of_lt hy, hz⟩
      · exact ⟨n, Nat.lt_succ_self n, Nat.not_lt.mp hn, h⟩

/-- Eras of four hundred years have the same number of days. -/
theorem marchStart_era (era y : Nat) :
    marchStart (y + era * 400) = era * 146097 + marchStart y := by
  unfold marchStart
  omega

/-- Sixty days after the years begin in January, they begin in March. -/
theorem daysBeforeYear_add (y : Nat) :
    daysBeforeYear y + (31 + monthLength y 2) = marchStart y + 60 := by
  induction y with
  | zero => rfl
  | succ y ih =>
      have hsucc := marchStart_succ y
      rw [yearLength_eq] at hsucc
      rw [daysBeforeYear_succ, yearLength_eq]
      omega

/-- The closed form of the count: with March as month 0, before the date there are the days of
the years from March on, those of the months, and those of the month. -/
theorem Date.dayNumber_march (date : Date) {y mp : Nat}
    (h : 3 ≤ date.month ∧ date.year = y ∧ date.month = mp + 3 ∨
      date.month ≤ 2 ∧ date.year = y + 1 ∧ date.month + 9 = mp) :
    date.dayNumber = marchStart y + (153 * mp + 2) / 5 + (date.day - 1) + 60 := by
  have hmonths := daysBeforeMonth_eq date.year date.one_le_month
    (date.month_le.trans (by decide))
  rw [Date.dayNumber, hmonths]
  rcases h with ⟨hge, rfl, hmp⟩ | ⟨hle, hyear, rfl⟩
  · have hyears := daysBeforeYear_add date.year
    rw [if_neg (by omega), hmp, Nat.add_sub_cancel]
    omega
  · -- January and February are the last two months: 306 and 337 days from March on.
    have hyears := daysBeforeYear_add y
    have hlength := yearLength_eq y
    rw [if_pos hle, hyear, daysBeforeYear_succ]
    have hpos := date.one_le_month
    interval_cases date.month <;> omega

end LedgerZcash.Calendar
