import IsmsPortal.Foundation.Text
import Mathlib.Tactic.Linarith

/-! # Time values and their ISO 8601 texts

A time value counts milliseconds since 1970 and lies in the range an
ECMAScript `Date` represents. Days split into the proleptic Gregorian year,
month and day of the month; the year is the greatest one that does not start
after the day. `toISOString` prints the fields with fixed widths, with a sign
and two more digits outside the years 0 to 9999, so it is injective.
-/

namespace Foundation

/-- Milliseconds of a number of days. -/
def days (count : Int) : Int := count * 86400000

/-- The largest time value: one hundred million days. -/
def maxTime : Int := 8640000000000000

/-- A valid time value, in milliseconds since the epoch. -/
structure Date where
  ms : Int
  inRange : -maxTime ≤ ms ∧ ms ≤ maxTime
deriving DecidableEq

namespace Date

theorem ext {left right : Date} (hms : left.ms = right.ms) : left = right := by
  cases left
  cases right
  cases hms
  rfl

/-- Number of the first day of a year. -/
def dayFromYear (year : Int) : Int :=
  365 * (year - 1970) + (year - 1969) / 4 - (year - 1901) / 100 + (year - 1601) / 400

/-- The greatest year that does not start after the day. The mean length of a
year gives an estimate that is off by at most one. -/
def yearFromDay (day : Int) : Int :=
  let estimate := day * 400 / 146097 + 1970
  if dayFromYear (estimate + 1) ≤ day then estimate + 1
  else if dayFromYear estimate ≤ day then estimate
  else estimate - 1

theorem dayFromYear_bounds (day : Int) :
    dayFromYear (yearFromDay day) ≤ day ∧ day < dayFromYear (yearFromDay day + 1) := by
  unfold yearFromDay
  simp only
  split
  next hnext =>
    refine ⟨hnext, ?_⟩
    unfold dayFromYear
    omega
  next hnext =>
    split
    next hyear => exact ⟨hyear, by omega⟩
    next hyear =>
      rw [sub_add_cancel]
      refine ⟨?_, by omega⟩
      unfold dayFromYear
      omega

/-- Years have 365 or 366 days. -/
theorem dayWithinYear_bounds (day : Int) :
    0 ≤ day - dayFromYear (yearFromDay day) ∧ day - dayFromYear (yearFromDay day) ≤ 365 := by
  have hbounds := dayFromYear_bounds day
  have hlength : dayFromYear (yearFromDay day + 1) ≤ dayFromYear (yearFromDay day) + 366 := by
    unfold dayFromYear
    omega
  omega

/-- First day of each month within the year, counted from zero. -/
def monthStart (leap : Bool) : Nat → Int
  | 0 => 0
  | 1 => 31
  | month + 2 => ([59, 90, 120, 151, 181, 212, 243, 273, 304, 334].getD month 334) +
      if leap then 1 else 0

/-- The month of a day within the year: the last one that has started. -/
def monthFromDay (leap : Bool) (dayWithinYear : Int) : Nat :=
  ((List.range 12).filter fun month => monthStart leap month ≤ dayWithinYear).length - 1

def isLeap (year : Int) : Bool := year % 4 = 0 ∧ (year % 100 ≠ 0 ∨ year % 400 = 0)

/-- Calendar and clock fields of a time value; month and day count from one. -/
structure Fields where
  year : Int
  month : Nat
  day : Nat
  hours : Nat
  minutes : Nat
  seconds : Nat
  milliseconds : Nat

def fields (date : Date) : Fields :=
  let day := date.ms / 86400000
  let time := (date.ms % 86400000).toNat
  let year := yearFromDay day
  let dayWithinYear := day - dayFromYear year
  let month := monthFromDay (isLeap year) dayWithinYear
  { year := year
    month := month + 1
    day := (dayWithinYear - monthStart (isLeap year) month).toNat + 1
    hours := time / 3600000
    minutes := time / 60000 % 60
    seconds := time / 1000 % 60
    milliseconds := time % 1000 }

/-- The year: four digits from 0 to 9999, else a sign and six digits. -/
def yearText (year : Int) : List Char :=
  if 0 ≤ year ∧ year ≤ 9999 then Text.fixedDigits 4 year.toNat
  else (if year < 0 then '-' else '+') :: Text.fixedDigits 6 year.natAbs

/-- `Date.prototype.toISOString`. -/
def isoText (date : Date) : List Char :=
  let fields := date.fields
  yearText fields.year ++ '-' :: Text.fixedDigits 2 fields.month ++
    '-' :: Text.fixedDigits 2 fields.day ++ 'T' :: Text.fixedDigits 2 fields.hours ++
    ':' :: Text.fixedDigits 2 fields.minutes ++ ':' :: Text.fixedDigits 2 fields.seconds ++
    '.' :: Text.fixedDigits 3 fields.milliseconds ++ ['Z']

/-! ## Reading the fields back -/

theorem month_bounds : ∀ leap : Bool, ∀ day < 366, monthFromDay leap (day : Nat) < 12 ∧
    monthStart leap (monthFromDay leap (day : Nat)) ≤ (day : Nat) ∧
    ((day : Nat) : Int) < monthStart leap (monthFromDay leap (day : Nat)) + 32 := by
  decide +kernel

/-- Every field fits its width. -/
structure Fields.Printable (fields : Fields) : Prop where
  year : fields.year.natAbs < 10 ^ 6
  month : fields.month < 10 ^ 2
  day : fields.day < 10 ^ 2
  hours : fields.hours < 10 ^ 2
  minutes : fields.minutes < 10 ^ 2
  seconds : fields.seconds < 10 ^ 2
  milliseconds : fields.milliseconds < 10 ^ 3

theorem month_bounds_of_day (day : Int) (leap : Bool) :
    monthFromDay leap (day - dayFromYear (yearFromDay day)) < 12 ∧
      0 ≤ day - dayFromYear (yearFromDay day) -
        monthStart leap (monthFromDay leap (day - dayFromYear (yearFromDay day))) ∧
      day - dayFromYear (yearFromDay day) -
        monthStart leap (monthFromDay leap (day - dayFromYear (yearFromDay day))) < 32 := by
  obtain ⟨hlow, hhigh⟩ := dayWithinYear_bounds day
  obtain ⟨within, hwithin⟩ := Int.eq_ofNat_of_zero_le hlow
  obtain ⟨hmonth, hstart, hend⟩ := month_bounds leap within (by omega)
  rw [hwithin]
  exact ⟨hmonth, by omega, by omega⟩

theorem fields_printable (date : Date) : date.fields.Printable := by
  obtain ⟨ms, hlow, hhigh⟩ := date
  unfold maxTime at hlow hhigh
  obtain ⟨hmonth, hfirst, hlast⟩ := month_bounds_of_day (ms / 86400000)
    (isLeap (yearFromDay (ms / 86400000)))
  refine ⟨?_, ?_, ?_, ?_, ?_, ?_, ?_⟩ <;> simp only [fields]
  · unfold yearFromDay
    simp only
    split
    · omega
    split <;> omega
  · omega
  · omega
  · omega
  · omega
  · omega
  · omega

/-- The fields determine the time value. -/
theorem ms_eq_of_fields (date : Date) :
    date.ms = (dayFromYear date.fields.year +
      monthStart (isLeap date.fields.year) (date.fields.month - 1) + date.fields.day - 1) *
        86400000 + date.fields.hours * 3600000 + date.fields.minutes * 60000 +
        date.fields.seconds * 1000 + date.fields.milliseconds := by
  obtain ⟨_, hfirst, _⟩ := month_bounds_of_day (date.ms / 86400000)
    (isLeap (yearFromDay (date.ms / 86400000)))
  simp only [fields, Nat.add_sub_cancel]
  push_cast
  rw [Int.toNat_of_nonneg hfirst, Int.toNat_of_nonneg (Int.emod_nonneg _ (by decide))]
  omega

/-- A year of four digits has no sign. -/
theorem head_fixedDigits_four (n : Nat) (rest : List Char) :
    (Text.fixedDigits 4 n ++ rest).head? ≠ some '-' ∧
      (Text.fixedDigits 4 n ++ rest).head? ≠ some '+' := by
  have hdigit : ∀ m < 10, m.digitChar ≠ '-' ∧ m.digitChar ≠ '+' := by decide
  have hfirst := hdigit _ (Nat.mod_lt (n / 10 / 10 / 10) (by decide : 10 > 0))
  simp only [Text.fixedDigits, List.nil_append, List.cons_append, List.head?_cons, ne_eq,
    Option.some.injEq]
  exact hfirst

theorem yearText_split {year year' : Int} (hyear : year.natAbs < 10 ^ 6)
    (hyear' : year'.natAbs < 10 ^ 6) {rest rest' : List Char}
    (heq : yearText year ++ rest = yearText year' ++ rest') : year = year' ∧ rest = rest' := by
  have hsign : ∀ n tail c more, Text.fixedDigits 4 n ++ tail = c :: more → c ≠ '-' ∧ c ≠ '+' := by
    intro n tail c more hcons
    have hhead := head_fixedDigits_four n tail
    rw [hcons] at hhead
    simpa using hhead
  by_cases hshort : 0 ≤ year ∧ year ≤ 9999
  · by_cases hshort' : 0 ≤ year' ∧ year' ≤ 9999
    · rw [yearText, if_pos hshort, yearText, if_pos hshort'] at heq
      obtain ⟨hvalue, hrest⟩ := Text.fixedDigits_split (by omega) (by omega) heq
      exact ⟨by omega, hrest⟩
    · rw [yearText, if_pos hshort, yearText, if_neg hshort'] at heq
      obtain ⟨hminus, hplus⟩ := hsign _ _ _ _ heq
      split at hminus <;> simp_all
  · by_cases hshort' : 0 ≤ year' ∧ year' ≤ 9999
    · rw [yearText, if_neg hshort, yearText, if_pos hshort'] at heq
      obtain ⟨hminus, hplus⟩ := hsign _ _ _ _ heq.symm
      split at hminus <;> simp_all
    · rw [yearText, if_neg hshort, yearText, if_neg hshort', List.cons_append,
        List.cons_append, List.cons.injEq] at heq
      obtain ⟨hvalue, hrest⟩ := Text.fixedDigits_split hyear hyear' heq.2
      have hsame : year < 0 ↔ year' < 0 := by
        have hchar := heq.1
        by_cases hneg : year < 0 <;> by_cases hneg' : year' < 0 <;>
          simp [hneg, hneg'] at hchar ⊢
      exact ⟨by omega, hrest⟩

/-- Distinct time values have distinct texts. -/
theorem isoText_injective : Function.Injective isoText := by
  intro left right heq
  have hleft := left.fields_printable
  have hright := right.fields_printable
  simp only [isoText, List.append_assoc, List.cons_append] at heq
  obtain ⟨hyear, heq⟩ := yearText_split hleft.year hright.year heq
  obtain ⟨hmonth, heq⟩ := Text.fixedDigits_split hleft.month hright.month (List.cons.inj heq).2
  obtain ⟨hday, heq⟩ := Text.fixedDigits_split hleft.day hright.day (List.cons.inj heq).2
  obtain ⟨hhours, heq⟩ := Text.fixedDigits_split hleft.hours hright.hours (List.cons.inj heq).2
  obtain ⟨hminutes, heq⟩ :=
    Text.fixedDigits_split hleft.minutes hright.minutes (List.cons.inj heq).2
  obtain ⟨hseconds, heq⟩ :=
    Text.fixedDigits_split hleft.seconds hright.seconds (List.cons.inj heq).2
  obtain ⟨hmilliseconds, _⟩ :=
    Text.fixedDigits_split hleft.milliseconds hright.milliseconds (List.cons.inj heq).2
  apply ext
  rw [left.ms_eq_of_fields, right.ms_eq_of_fields, hyear, hmonth, hday, hhours, hminutes,
    hseconds, hmilliseconds]

/-! ## Reading a text -/

/-- The number of a field, and what is behind the character that ends it. -/
def readField (width : Nat) (text : List Char) : Nat × List Char :=
  (Nat.ofDigitChars 10 (text.take width) 0, text.drop (width + 1))

/-- A year with a sign has six digits. -/
def readYear (text : List Char) : Int × List Char :=
  if text.head? = some '-' then
    let (year, rest) := readField 6 text.tail
    (-year, rest)
  else if text.head? = some '+' then
    let (year, rest) := readField 6 text.tail
    (year, rest)
  else
    let (year, rest) := readField 4 text
    (year, rest)

def readFields (text : List Char) : Fields :=
  let (year, text) := readYear text
  let (month, text) := readField 2 text
  let (day, text) := readField 2 text
  let (hours, text) := readField 2 text
  let (minutes, text) := readField 2 text
  let (seconds, text) := readField 2 text
  let (milliseconds, _) := readField 3 text
  { year, month, day, hours, minutes, seconds, milliseconds }

/-- The time value of calendar and clock fields. -/
def Fields.ms (fields : Fields) : Int :=
  (dayFromYear fields.year + monthStart (isLeap fields.year) (fields.month - 1) + fields.day - 1) *
    86400000 + fields.hours * 3600000 + fields.minutes * 60000 + fields.seconds * 1000 +
    fields.milliseconds

/-- `Date.parse` of the texts that `toISOString` writes; no other text is read. -/
def parseIso (text : List Char) : Option Date :=
  let ms := (readFields text).ms
  if h : -maxTime ≤ ms ∧ ms ≤ maxTime then
    if isoText ⟨ms, h⟩ = text then some ⟨ms, h⟩ else none
  else none

theorem readField_fixedDigits {width n : Nat} (hn : n < 10 ^ width) (c : Char)
    (rest : List Char) : readField width (Text.fixedDigits width n ++ c :: rest) = (n, rest) := by
  have htake : (Text.fixedDigits width n ++ c :: rest).take width = Text.fixedDigits width n :=
    List.take_left' (Text.length_fixedDigits width n)
  have hdrop : (Text.fixedDigits width n ++ c :: rest).drop (width + 1) = rest := by
    have hsplit : Text.fixedDigits width n ++ c :: rest =
        Text.fixedDigits width n ++ [c] ++ rest := by simp
    rw [hsplit]
    exact List.drop_left' (by simp)
  rw [readField, htake, hdrop, Text.ofDigitChars_fixedDigits, Nat.mod_eq_of_lt hn]

theorem readYear_yearText {year : Int} (hyear : year.natAbs < 10 ^ 6) (c : Char)
    (rest : List Char) : readYear (yearText year ++ c :: rest) = (year, rest) := by
  by_cases hshort : 0 ≤ year ∧ year ≤ 9999
  · have hhead := head_fixedDigits_four year.toNat (c :: rest)
    rw [yearText, if_pos hshort, readYear, if_neg hhead.1, if_neg hhead.2,
      readField_fixedDigits (by omega)]
    simp [Int.toNat_of_nonneg hshort.1]
  · rw [yearText, if_neg hshort, readYear]
    by_cases hneg : year < 0
    · have hminus : (-(year.natAbs : Int), rest) = (year, rest) := by
        congr 1
        omega
      rw [if_pos hneg, List.cons_append, if_pos List.head?_cons, List.tail_cons,
        readField_fixedDigits hyear]
      exact hminus
    · have hplus : ((year.natAbs : Int), rest) = (year, rest) := by
        congr 1
        omega
      rw [if_neg hneg, List.cons_append, if_neg (by simp), if_pos List.head?_cons, List.tail_cons,
        readField_fixedDigits hyear]
      exact hplus

theorem readFields_isoText (date : Date) : readFields date.isoText = date.fields := by
  obtain ⟨hyear, hmonth, hday, hhours, hminutes, hseconds, hmilliseconds⟩ := date.fields_printable
  simp only [isoText, readFields, List.append_assoc, List.cons_append, readYear_yearText hyear,
    readField_fixedDigits hmonth, readField_fixedDigits hday, readField_fixedDigits hhours,
    readField_fixedDigits hminutes, readField_fixedDigits hseconds,
    readField_fixedDigits hmilliseconds]

/-- A time value is read back from its text. -/
theorem parseIso_isoText (date : Date) : parseIso date.isoText = some date := by
  have hms : (readFields date.isoText).ms = date.ms := by
    rw [readFields_isoText, date.ms_eq_of_fields]
    rfl
  simp [parseIso, hms, date.inRange]

end Date

end Foundation
