import LedgerZcash.Basic
import LedgerZcash.Lib.Calendar
import LedgerZcash.Lib.Collect
import LedgerZcash.Lib.Decimal

/-!
# Dates on the command line

`parse_date_or_timestamp` reads a date with the help of a calendar library, and
`format_block_time` computes the date of a timestamp by itself, in years that begin in March.
The computation finds the date with the right number of days before it (`civil_eq`), so the two
undo each other as long as the seconds of a date fit 32 bits; later dates are wrapped to another
instant without an error (`dates_inverse_iff`).
-/

namespace LedgerZcash

open Calendar Collect Decimal

/-! ## Writing a timestamp -/

/-- The year of an era of 400 years, by the day of the era. -/
def yearOfEra (doe : Nat) : Nat := (doe - doe / 1460 + doe / 36524 - doe / 146096) / 365

/-- Year, month and day, by the number of days since the Unix epoch. -/
def civil (days : Nat) : Nat × Nat × Nat :=
  let z := days + 719468
  let era := z / 146097
  let doe := z % 146097
  let yoe := yearOfEra doe
  let y := yoe + era * 400
  let doy := doe - (365 * yoe + yoe / 4 - yoe / 100)
  let mp := (5 * doy + 2) / 153
  let d := doy - (153 * mp + 2) / 5 + 1
  let m := if mp < 10 then mp + 3 else mp - 9
  (if m ≤ 2 then y + 1 else y, m, d)

/-- `YYYY-MM-DD`. -/
def formatDate (y m d : Nat) : List Char := padded 4 y ++ '-' :: padded 2 m ++ '-' :: padded 2 d

/-- `HH:MM:SS`. -/
def formatTime (hh mm ss : Nat) : List Char :=
  padded 2 hh ++ ':' :: padded 2 mm ++ ':' :: padded 2 ss

def formatBlockTime (ts : UInt32) : String :=
  let s := ts.toNat
  let secsPerDay := 86400
  let days := s / secsPerDay
  let timeOfDay := s % secsPerDay
  let hh := timeOfDay / 3600
  let mm := timeOfDay % 3600 / 60
  let ss := timeOfDay % 60
  let (y, m, d) := civil days
  String.ofList (formatDate y m d ++ 'T' :: (formatTime hh mm ss ++ ['Z']))

/-- At the first and the last day of each of the 400 years, the year comes out. -/
theorem yearOfEra_ends : ∀ y < 400,
    yearOfEra (marchStart y) = y ∧ yearOfEra (marchStart (y + 1) - 1) = y := by
  decide +kernel

theorem yearOfEra_mono {a b : Nat} (h : a ≤ b) : yearOfEra a ≤ yearOfEra b := by
  have hshort : a - a / 1460 ≤ b - b / 1460 := by omega
  have hlong : a / 36524 - a / 146096 ≤ b / 36524 - b / 146096 := by omega
  unfold yearOfEra
  apply Nat.div_le_div_right
  omega

theorem yearOfEra_eq {doe : Nat} (h : doe < 146097) : yearOfEra doe < 400 ∧
    marchStart (yearOfEra doe) ≤ doe ∧ doe < marchStart (yearOfEra doe + 1) := by
  obtain ⟨y, hy, hle, hlt⟩ := exists_marchStart (n := 400) h
  obtain ⟨hfirst, hlast⟩ := yearOfEra_ends y hy
  have hyear : yearOfEra doe = y := by
    refine le_antisymm ?_ ?_
    · exact (yearOfEra_mono (Nat.le_sub_one_of_lt hlt)).trans hlast.le
    · exact hfirst.ge.trans (yearOfEra_mono hle)
  rw [hyear]
  exact ⟨hy, hle, hlt⟩

/-- Of the days since the first of March of year 0, the days of the era, the year and the day of
the year: the subtraction does not go below zero. -/
theorem marchYear_eq {z era doe yoe : Nat} (hera : era = z / 146097) (hdoe : doe = z % 146097)
    (hyoe : yoe = yearOfEra doe) :
    z = marchStart (yoe + era * 400) + (doe - (365 * yoe + yoe / 4 - yoe / 100)) ∧
      doe - (365 * yoe + yoe / 4 - yoe / 100) < yearLength (yoe + era * 400 + 1) := by
  have hlt : doe < 146097 := hdoe ▸ Nat.mod_lt _ (by decide)
  obtain ⟨hyear, hfirst, hlast⟩ := yearOfEra_eq hlt
  rw [← hyoe] at hyear hfirst hlast
  have hstart : marchStart yoe = 365 * yoe + yoe / 4 - yoe / 100 := by
    rw [marchStart, Nat.div_eq_of_lt hyear, Nat.add_zero]
  have hz : z = era * 146097 + doe := by rw [hera, hdoe, Nat.div_add_mod']
  have hnext := marchStart_succ (yoe + era * 400)
  rw [show yoe + era * 400 + 1 = yoe + 1 + era * 400 by omega, marchStart_era, marchStart_era,
    show yoe + 1 + era * 400 = yoe + era * 400 + 1 by omega] at hnext
  rw [← hstart, marchStart_era]
  omega

/-- The length of a month but February, counted from March on. -/
theorem monthLength_march (y : Nat) {mp : Nat} (h : mp < 11) :
    monthLength y (if mp < 10 then mp + 3 else mp - 9) =
      (153 * (mp + 1) + 2) / 5 - (153 * mp + 2) / 5 := by
  interval_cases mp <;> rfl

/-- The month and the day of the month, by the day of the year from March on. -/
theorem exists_date {y doy mp d m : Nat} (hdoy : doy < yearLength (y + 1))
    (hmp : mp = (5 * doy + 2) / 153) (hd : d = doy - (153 * mp + 2) / 5 + 1)
    (hm : m = if mp < 10 then mp + 3 else mp - 9) :
    ∃ date : Date, date.year = (if m ≤ 2 then y + 1 else y) ∧ date.month = m ∧ date.day = d ∧
      date.dayNumber = marchStart y + doy + 60 := by
  have hyear : yearLength (y + 1) ≤ 366 := by
    unfold yearLength
    split <;> decide
  have hmp' : mp < 12 := by omega
  have hday : d ≤ monthLength (if m ≤ 2 then y + 1 else y) m := by
    by_cases hfeb : mp < 11
    · rw [hm, monthLength_march _ hfeb]
      omega
    · -- February is what the other months leave of the year
      obtain rfl : mp = 11 := by omega
      obtain rfl : m = 2 := hm
      rw [yearLength_eq] at hdoy
      rw [if_pos le_rfl]
      omega
  have hmonth : 3 ≤ m ∧ m = mp + 3 ∧ m ≤ 12 ∨ m ≤ 2 ∧ m + 9 = mp ∧ 1 ≤ m := by
    split at hm <;> omega
  let date : Date := ⟨if m ≤ 2 then y + 1 else y, m, d, by omega, by omega, by omega, hday⟩
  refine ⟨date, rfl, rfl, rfl, ?_⟩
  have hmarch : 3 ≤ date.month ∧ date.year = y ∧ date.month = mp + 3 ∨
      date.month ≤ 2 ∧ date.year = y + 1 ∧ date.month + 9 = mp := by
    rcases hmonth with ⟨hge, hm', -⟩ | ⟨hle, hm', -⟩
    · exact .inl ⟨hge, if_neg (by omega), hm'⟩
    · exact .inr ⟨hle, if_pos hle, hm'⟩
  rw [date.dayNumber_march hmarch]
  show marchStart y + (153 * mp + 2) / 5 + (d - 1) + 60 = _
  omega

/-- The year, month and day are those of the date with that many days before it. -/
theorem civil_eq (days : Nat) : ∃ date : Date, civil days = (date.year, date.month, date.day) ∧
    date.dayNumber = days + 719528 := by
  obtain ⟨hz, hdoy⟩ := marchYear_eq (z := days + 719468) rfl rfl rfl
  obtain ⟨date, hyear, hmonth, hday, hcount⟩ := exists_date hdoy rfl rfl rfl
  refine ⟨date, ?_, ?_⟩
  · rw [hyear, hmonth, hday]
    rfl
  · rw [hcount, ← hz]

/-! ## Reading a date -/

/-- What the code calls in the calendar library. -/
structure CalendarLibrary where
  Date : Type
  /-- `Date::from_calendar_date`, by year, month and day. -/
  fromCalendarDate : Int → Nat → Nat → Option Date
  /-- The Unix timestamp of midnight UTC. -/
  unixTimestamp : Date → Int

/-- `ok_or`, with a text. -/
def orText {α : Type} (x : Option α) (text : String) : Except String α :=
  match x with
  | some a => .ok a
  | none => .error text

theorem orText_eq_ok {α : Type} {x : Option α} {text : String} {a : α} :
    orText x text = .ok a ↔ x = some a := by
  cases x <;> simp [orText]

variable (L : CalendarLibrary)

/-- `ts as u32`, for a timestamp from the epoch on. -/
def narrowTimestamp (input : String) (ts : Int) : Except String UInt32 :=
  if 0 ≤ ts then .ok (UInt32.ofNat ts.toNat)
  else .error ("date '" ++ input ++ "' is before Unix epoch")

/-- The three parts of a date. -/
def parseYearMonthDay (input : String) (ys ms ds : List Char) : Except String UInt32 := do
  let year ← orText (parseSigned (2 ^ 31) ys) ("invalid year: " ++ String.ofList ys)
  let monthNum ← orText (parseUnsigned 256 ms) ("invalid month: " ++ String.ofList ms)
  let day ← orText (parseUnsigned 256 ds) ("invalid day: " ++ String.ofList ds)
  refuseIf (¬(1 ≤ monthNum ∧ monthNum ≤ 12)) ("month out of range: " ++ monthNum.repr)
  let date ← orText (L.fromCalendarDate year monthNum day) ("invalid date: " ++ input)
  narrowTimestamp input (L.unixTimestamp date)

/-- The branch of a text `YYYY-MM-DD`. -/
def parseDate (input : String) : Except String UInt32 :=
  match input.toList.splitOn '-' with
  | [ys, ms, ds] => parseYearMonthDay L input ys ms ds
  | _ => .error ("cannot parse '" ++ input ++ "' as YYYY-MM-DD or Unix timestamp")

/-- A date at midnight UTC, or a raw Unix timestamp. -/
def parseDateOrTimestamp (input : String) : Except String UInt32 :=
  match parseUnsigned u32Size input.toList with
  | some ts => .ok (UInt32.ofNat ts)
  | none => parseDate L input

/-- The days before the Unix epoch. -/
def epochDay : Nat := 719528

/-- The library keeps the proleptic Gregorian calendar, for years up to 9999: it knows the dates
of the calendar and no others, and counts their days from the epoch on. -/
structure CalendarLibrary.Gregorian : Prop where
  exists_date : ∀ (y m d : Nat) (x : L.Date), L.fromCalendarDate y m d = some x →
    ∃ date : Calendar.Date, date.year = y ∧ date.month = m ∧ date.day = d ∧ y ≤ 9999
  fromCalendarDate : ∀ date : Calendar.Date, date.year ≤ 9999 → ∃ x,
    L.fromCalendarDate date.year date.month date.day = some x ∧
      L.unixTimestamp x = ((date.dayNumber : Int) - epochDay) * 86400
  beforeYearZero : ∀ (y : Int) (m d : Nat) (x : L.Date), y < 0 →
    L.fromCalendarDate y m d = some x → L.unixTimestamp x < 0

/-- The three numbers of a text name a date. -/
def Names (input : String) (date : Date) : Prop :=
  ∃ ys ms ds, input.toList.splitOn '-' = [ys, ms, ds] ∧
    parseSigned (2 ^ 31) ys = some (date.year : Int) ∧
      parseUnsigned 256 ms = some date.month ∧ parseUnsigned 256 ds = some date.day

section Reading

variable {L} {input : String} {date : Date} {ts : UInt32}

/-- A text with three parts is not a number. -/
theorem Names.parseUnsigned_eq_none (h : Names input date) :
    parseUnsigned u32Size input.toList = none := by
  obtain ⟨ys, ms, ds, hsplit, -⟩ := h
  have hdash : '-' ∈ input.toList := by
    have hjoin : ['-'].intercalate (input.toList.splitOn '-') = input.toList :=
      List.intercalate_splitOn '-'
    rw [← hjoin, hsplit]
    simp [List.intercalate, List.intersperse]
  exact Decimal.parseUnsigned_eq_none hdash (by decide) (by decide)

/-- The seconds of midnight, since the epoch. -/
def secondsOf (date : Date) : Nat := (date.dayNumber - epochDay) * 86400

/-- Three parts are accepted when they are a date from the epoch on, and its seconds are wrapped
to 32 bits. -/
theorem parseYearMonthDay_eq_ok (hL : L.Gregorian) {ys ms ds : List Char} :
    parseYearMonthDay L input ys ms ds = .ok ts ↔ ∃ date : Date,
      parseSigned (2 ^ 31) ys = some (date.year : Int) ∧ parseUnsigned 256 ms = some date.month ∧
        parseUnsigned 256 ds = some date.day ∧ date.year ≤ 9999 ∧ epochDay ≤ date.dayNumber ∧
          ts = UInt32.ofNat (secondsOf date) := by
  have hmidnight : ∀ date : Date, epochDay ≤ date.dayNumber →
      (((date.dayNumber : Int) - epochDay) * 86400).toNat = secondsOf date := by
    intro date hepoch
    rw [secondsOf]
    omega
  constructor
  · intro h
    obtain ⟨year, hyear, h⟩ := bind_eq_ok.mp h
    obtain ⟨month, hmonth, h⟩ := bind_eq_ok.mp h
    obtain ⟨day, hday, h⟩ := bind_eq_ok.mp h
    obtain ⟨-, -, h⟩ := bind_eq_ok.mp h
    obtain ⟨x, hx, h⟩ := bind_eq_ok.mp h
    rw [orText_eq_ok] at hyear hmonth hday hx
    rw [narrowTimestamp] at h
    split at h
    · rename_i hts
      cases h
      rcases lt_or_ge year 0 with hneg | hnonneg
      · exact absurd (hL.beforeYearZero year month day x hneg hx) (Int.not_lt.mpr hts)
      · obtain ⟨y, rfl⟩ := Int.eq_ofNat_of_zero_le hnonneg
        obtain ⟨date, rfl, rfl, rfl, hle⟩ := hL.exists_date y month day x hx
        obtain ⟨x', hx', htime⟩ := hL.fromCalendarDate date hle
        cases hx.symm.trans hx'
        rw [htime] at hts ⊢
        have hepoch : epochDay ≤ date.dayNumber := by omega
        exact ⟨date, hyear, hmonth, hday, hle, hepoch, by rw [hmidnight date hepoch]⟩
    · cases h
  · rintro ⟨date, hyear, hmonth, hday, hle, hepoch, rfl⟩
    obtain ⟨x, hx, htime⟩ := hL.fromCalendarDate date hle
    refine bind_eq_ok.mpr ⟨_, orText_eq_ok.mpr hyear, bind_eq_ok.mpr ⟨_, orText_eq_ok.mpr hmonth,
      bind_eq_ok.mpr ⟨_, orText_eq_ok.mpr hday, bind_eq_ok.mpr ⟨(), refuseIf_eq_ok.mpr
        (not_not.mpr ⟨date.one_le_month, date.month_le⟩), bind_eq_ok.mpr ⟨x, orText_eq_ok.mpr hx,
          ?_⟩⟩⟩⟩⟩
    have hts : 0 ≤ L.unixTimestamp x := by
      rw [htime]
      omega
    rw [narrowTimestamp, if_pos hts, htime, hmidnight date hepoch]

theorem parseDate_eq_ok (hL : L.Gregorian) :
    parseDate L input = .ok ts ↔ ∃ date, Names input date ∧ date.year ≤ 9999 ∧
      epochDay ≤ date.dayNumber ∧ ts = UInt32.ofNat (secondsOf date) := by
  rw [parseDate]
  constructor
  · intro h
    split at h
    · rename_i ys ms ds hsplit
      obtain ⟨date, hyear, hmonth, hday, hrest⟩ := (parseYearMonthDay_eq_ok hL).mp h
      exact ⟨date, ⟨ys, ms, ds, hsplit, hyear, hmonth, hday⟩, hrest⟩
    · cases h
  · rintro ⟨date, ⟨ys, ms, ds, hsplit, hyear, hmonth, hday⟩, hrest⟩
    rw [hsplit]
    exact (parseYearMonthDay_eq_ok hL).mpr ⟨date, hyear, hmonth, hday, hrest⟩

/-- What is accepted is a number that fits, or names a date from the epoch on. -/
theorem parseDateOrTimestamp_eq_ok (hL : L.Gregorian) :
    parseDateOrTimestamp L input = .ok ts ↔
      (∃ n, parseUnsigned u32Size input.toList = some n ∧ ts = UInt32.ofNat n) ∨
      ∃ date, Names input date ∧ date.year ≤ 9999 ∧ epochDay ≤ date.dayNumber ∧
        ts = UInt32.ofNat (secondsOf date) := by
  rw [← parseDate_eq_ok hL, parseDateOrTimestamp]
  cases hnumber : parseUnsigned u32Size input.toList with
  | some n =>
      constructor
      · intro h
        exact .inl ⟨n, rfl, (Except.ok.inj h).symm⟩
      · rintro (⟨n', hn', rfl⟩ | hdate)
        · cases hn'
          rfl
        · obtain ⟨date, hnames, -⟩ := (parseDate_eq_ok hL).mp hdate
          cases hnumber.symm.trans hnames.parseUnsigned_eq_none
  | none =>
      constructor
      · exact .inr
      · rintro (⟨n, hn, -⟩ | hdate)
        · cases hn
        · exact hdate

/-- A text names one date. -/
theorem Names.unique {date' : Date} (h : Names input date) (h' : Names input date') :
    date = date' := by
  obtain ⟨ys, ms, ds, hsplit, hyear, hmonth, hday⟩ := h
  obtain ⟨ys', ms', ds', hsplit', hyear', hmonth', hday'⟩ := h'
  cases hsplit.symm.trans hsplit'
  apply Date.ext
  · exact Int.ofNat.inj (Option.some.inj (hyear.symm.trans hyear'))
  · exact Option.some.inj (hmonth.symm.trans hmonth')
  · exact Option.some.inj (hday.symm.trans hday')

end Reading

/-! ## Back and forth -/

section Inverse

variable {L} {input : String} {date date' : Date} {ts : UInt32}

theorem dash_notMem_padded (width n : Nat) : '-' ∉ padded width n := notMem_padded (by decide)

theorem splitOn_formatDate (y m d : Nat) :
    (formatDate y m d).splitOn '-' = [padded 4 y, padded 2 m, padded 2 d] := by
  have hjoin : formatDate y m d = ['-'].intercalate [padded 4 y, padded 2 m, padded 2 d] := by
    simp [formatDate, List.intercalate, List.intersperse]
  rw [hjoin]
  refine List.splitOn_intercalate _ ?_ (List.cons_ne_nil _ _)
  simp [dash_notMem_padded]

/-- The text of a date names it. -/
theorem names_formatDate (hyear : date.year ≤ 9999) :
    Names (String.ofList (formatDate date.year date.month date.day)) date := by
  refine ⟨_, _, _, by rw [String.toList_ofList, splitOn_formatDate], ?_, ?_, ?_⟩
  · exact parseSigned_padded (hyear.trans_lt (by decide))
  · exact parseUnsigned_padded (date.month_le.trans_lt (by decide))
  · exact parseUnsigned_padded ((date.day_le.trans (monthLength_le _ _)).trans_lt (by decide))

/-- Up to the letter `T`. -/
def datePart (s : String) : String := String.ofList (s.toList.takeWhile (· ≠ 'T'))

theorem datePart_append (y m d : Nat) (rest : List Char) :
    datePart (String.ofList (formatDate y m d ++ 'T' :: rest)) =
      String.ofList (formatDate y m d) := by
  have hnumber : ∀ width n, ∀ c ∈ padded width n, decide (c ≠ 'T') = true := by
    intro width n c hc
    apply decide_eq_true
    rintro rfl
    exact absurd hc (notMem_padded (by decide))
  have hletter : ∀ c ∈ formatDate y m d, decide (c ≠ 'T') = true := by
    intro c hc
    rw [formatDate] at hc
    simp only [List.mem_append, List.mem_cons] at hc
    rcases hc with (hc | rfl | hc) | rfl | hc
    · exact hnumber _ _ c hc
    · rfl
    · exact hnumber _ _ c hc
    · rfl
    · exact hnumber _ _ c hc
  rw [datePart, String.toList_ofList, List.takeWhile_append_of_pos hletter, List.takeWhile_cons,
    if_neg (by decide), List.append_nil]

/-- Different dates have different texts. -/
theorem formatDate_inj (hyear : date.year ≤ 9999) (hyear' : date'.year ≤ 9999)
    (h : formatDate date.year date.month date.day =
      formatDate date'.year date'.month date'.day) : date = date' := by
  have hnames := names_formatDate hyear
  rw [h] at hnames
  exact hnames.unique (names_formatDate hyear')

/-- A date at midnight. -/
def midnightText (date : Date) : String :=
  String.ofList (formatDate date.year date.month date.day ++ 'T' :: (formatTime 0 0 0 ++ ['Z']))

/-- The last date whose midnight fits 32 bits. -/
def lastDate : Date := ⟨2106, 2, 7, by decide, by decide, by decide, by decide⟩

theorem dayNumber_lastDate : lastDate.dayNumber = epochDay + 49710 := by decide +kernel

/-- A timestamp is written as the date of its day, and its time of the day. -/
theorem formatBlockTime_eq (ts : UInt32) : ∃ date : Date,
    date.dayNumber = ts.toNat / 86400 + epochDay ∧ date.year ≤ 9999 ∧
      formatBlockTime ts = String.ofList (formatDate date.year date.month date.day ++
        'T' :: (formatTime (ts.toNat % 86400 / 3600) (ts.toNat % 86400 % 3600 / 60)
          (ts.toNat % 86400 % 60) ++ ['Z'])) := by
  obtain ⟨date, hcivil, hcount⟩ := civil_eq (ts.toNat / 86400)
  refine ⟨date, hcount, ?_, ?_⟩
  · have hlt := ts.toNat_lt
    have hlast : ¬lastDate.Before date := by
      rw [← Date.dayNumber_lt_iff, dayNumber_lastDate, hcount, epochDay]
      omega
    by_contra hyear
    exact hlast (.inl ((show 2106 ≤ 9999 by decide).trans_lt (Nat.not_le.mp hyear)))
  · simp only [formatBlockTime, hcivil]

/-- The midnights that fit are those up to the last date. -/
theorem secondsOf_lt_iff (hepoch : epochDay ≤ date.dayNumber) :
    secondsOf date < u32Size ↔ ¬lastDate.Before date := by
  rw [← Date.dayNumber_lt_iff, dayNumber_lastDate, secondsOf]
  show _ < 4294967296 ↔ _
  omega

/-- A timestamp that is written as the midnight of a date is on that day. -/
theorem div_eq_of_midnightText (hyear : date.year ≤ 9999)
    (h : formatBlockTime ts = midnightText date) :
    ts.toNat / 86400 * 86400 = secondsOf date := by
  obtain ⟨date', hcount, hyear', htext⟩ := formatBlockTime_eq ts
  have hdates := congrArg datePart (htext.symm.trans h)
  rw [midnightText, datePart_append, datePart_append] at hdates
  obtain rfl := formatDate_inj hyear' hyear (String.ofList_injective hdates)
  rw [secondsOf, hcount, Nat.add_sub_cancel]

/-- Midnight is written as such. -/
theorem formatBlockTime_midnight (hepoch : epochDay ≤ date.dayNumber)
    (hts : ts.toNat = secondsOf date) : formatBlockTime ts = midnightText date := by
  obtain ⟨date', hcount, -, htext⟩ := formatBlockTime_eq ts
  rw [hts, secondsOf, Nat.mul_div_cancel _ (by decide), Nat.sub_add_cancel hepoch,
    Date.dayNumber_inj] at hcount
  rw [htext, hts, secondsOf, Nat.mul_mod_left, midnightText, hcount]

/-- A date that is accepted is mapped to its midnight, and written back, exactly when it is not
after 2106-02-07.  Besides dates only plain timestamps are accepted.  The date of any timestamp
reads back as the midnight of its day. -/
theorem dates_inverse_iff (hL : L.Gregorian) :
    (∀ input ts, parseDateOrTimestamp L input = .ok ts →
      parseUnsigned u32Size input.toList = some ts.toNat ∨ ∃ date, Names input date) ∧
    (∀ input date ts, Names input date → parseDateOrTimestamp L input = .ok ts →
      (formatBlockTime ts = midnightText date ↔ ¬lastDate.Before date) ∧
        (ts.toNat = secondsOf date ↔ ¬lastDate.Before date)) ∧
    ∀ ts, parseDateOrTimestamp L (datePart (formatBlockTime ts)) = .ok (ts - ts % 86400) := by
  refine ⟨fun input ts h ↦ ?_, fun input date ts hnames h ↦ ?_, fun ts ↦ ?_⟩
  · rcases (parseDateOrTimestamp_eq_ok hL).mp h with ⟨n, hn, rfl⟩ | ⟨date, hnames, -⟩
    · rw [UInt32.toNat_ofNat_of_lt' (parseUnsigned_lt hn)]
      exact .inl hn
    · exact .inr ⟨date, hnames⟩
  · obtain ⟨date', hnames', hyear, hepoch, hts⟩ :=
      ((parseDateOrTimestamp_eq_ok hL).mp h).resolve_left fun ⟨n, hn, _⟩ ↦
        nomatch hnames.parseUnsigned_eq_none.symm.trans hn
    obtain rfl := hnames.unique hnames'
    rw [← secondsOf_lt_iff hepoch]
    have hlt := ts.toNat_lt
    have hwrap : secondsOf date < u32Size → ts.toNat = secondsOf date := fun hfits ↦
      hts ▸ UInt32.toNat_ofNat_of_lt' hfits
    refine ⟨⟨fun htext ↦ ?_, fun hfits ↦ formatBlockTime_midnight hepoch (hwrap hfits)⟩,
      fun heq ↦ heq ▸ hlt, hwrap⟩
    rw [← div_eq_of_midnightText hyear htext]
    exact (Nat.div_mul_le_self _ _).trans_lt hlt
  · obtain ⟨date, hcount, hyear, htext⟩ := formatBlockTime_eq ts
    rw [htext, datePart_append]
    refine (parseDateOrTimestamp_eq_ok hL).mpr (.inr ⟨date, names_formatDate hyear, hyear,
      hcount ▸ Nat.le_add_left _ _, ?_⟩)
    have hlt := ts.toNat_lt
    have hmod : (ts % 86400).toNat = ts.toNat % 86400 := UInt32.toNat_mod ts 86400
    have hle : ts % 86400 ≤ ts := by
      rw [UInt32.le_iff_toNat_le, hmod]
      exact Nat.mod_le _ _
    have hseconds : secondsOf date = ts.toNat - ts.toNat % 86400 := by
      rw [secondsOf, hcount, Nat.add_sub_cancel]
      omega
    rw [hseconds, ← UInt32.toNat_inj, UInt32.toNat_sub_of_le _ _ hle, hmod,
      UInt32.toNat_ofNat_of_lt' ((Nat.sub_le _ _).trans_lt hlt)]

end Inverse

/-! ## Two dates -/

/-- A library of the dates of the calendar. -/
def gregorianLibrary : CalendarLibrary where
  Date := Calendar.Date
  fromCalendarDate y m d :=
    if h : 0 ≤ y ∧ y ≤ 9999 ∧ 1 ≤ m ∧ m ≤ 12 ∧ 1 ≤ d ∧ d ≤ monthLength y.toNat m then
      some ⟨y.toNat, m, d, h.2.2.1, h.2.2.2.1, h.2.2.2.2.1, h.2.2.2.2.2⟩
    else none
  unixTimestamp date := ((date.dayNumber : Int) - epochDay) * 86400

theorem gregorianLibrary_gregorian : gregorianLibrary.Gregorian where
  exists_date y m d x hx := by
    obtain ⟨h, hdate⟩ := Option.dite_none_right_eq_some.mp hx
    exact ⟨⟨y, m, d, h.2.2.1, h.2.2.2.1, h.2.2.2.2.1, h.2.2.2.2.2⟩, rfl, rfl, rfl, by omega⟩
  fromCalendarDate date hyear :=
    ⟨date, dif_pos ⟨Int.natCast_nonneg _, by omega, date.one_le_month, date.month_le,
      date.one_le_day, date.day_le⟩, rfl⟩
  beforeYearZero y m d x hneg hx := by
    obtain ⟨h, -⟩ := Option.dite_none_right_eq_some.mp hx
    exact absurd h.1 (Int.not_le.mpr hneg)

/-- The day after the last date: its seconds are wrapped to an afternoon in 1970. -/
theorem late_date_wraps :
    parseDateOrTimestamp gregorianLibrary "2106-02-08" = .ok 63104 ∧
      formatBlockTime 63104 = "1970-01-01T17:31:44Z" := by
  constructor
  · decide +kernel
  · decide +kernel

/-- A leap day is written back. -/
theorem dates_inverse_iff_leapDay : formatBlockTime 951782400 = "2000-02-29T00:00:00Z" := by
  have hnames : Names "2000-02-29" ⟨2000, 2, 29, by decide, by decide, by decide, by decide⟩ :=
    ⟨_, _, _, rfl, rfl, rfl, rfl⟩
  have hparse : parseDateOrTimestamp gregorianLibrary "2000-02-29" = .ok 951782400 := by
    decide +kernel
  exact (((dates_inverse_iff gregorianLibrary_gregorian).2.1 _ _ _ hnames hparse).1.mpr
    (by decide)).trans rfl

end LedgerZcash
