import Mathlib.Data.Nat.Find
import Sendword.Decimal

/-!
# The Gregorian calendar and its timestamps

Dates and times of day from the year zero on, the instants they name, and
their texts `YYYY-MM-DDTHH:MM:SS.mmmZ`.  In the years of four digits the
texts are ordered like the instants.
-/

namespace Calendar

open Decimal

def leap (year : Nat) : Bool :=
  year % 4 == 0 && (year % 100 != 0 || year % 400 == 0)

def daysInYear (year : Nat) : Nat := if leap year then 366 else 365

/-- The days of the years before a year. -/
def daysBeforeYear (year : Nat) : Nat :=
  365 * year + (year + 3) / 4 - (year + 99) / 100 + (year + 399) / 400

def monthLengths (year : Nat) : List Nat :=
  [31, if leap year then 29 else 28, 31, 30, 31, 30, 31, 31, 30, 31, 30, 31]

/-- The days of the months before a month, which is counted from zero. -/
def daysBeforeMonth (year month : Nat) : Nat :=
  ((monthLengths year).take month).sum

/-- A date and a time of day to the millisecond; months and days are counted
from one. -/
@[ext] structure Time where
  year : Nat
  month : Nat
  day : Nat
  hour : Nat
  minute : Nat
  second : Nat
  milli : Nat
  deriving DecidableEq, Repr

namespace Time

/-- The fields are those of a time in a year of four digits. -/
structure Valid (time : Time) : Prop where
  year : time.year < 10000
  month : 1 ≤ time.month ∧ time.month ≤ 12
  day : 1 ≤ time.day ∧
    time.day ≤ (monthLengths time.year).getD (time.month - 1) 0
  hour : time.hour < 24
  minute : time.minute < 60
  second : time.second < 60
  milli : time.milli < 1000

/-- The days before the date, from the first of January of the year zero. -/
def days (time : Time) : Nat :=
  daysBeforeYear time.year + daysBeforeMonth time.year (time.month - 1) +
    (time.day - 1)

/-- The milliseconds before the time of day. -/
def ofDay (time : Time) : Nat :=
  ((time.hour * 60 + time.minute) * 60 + time.second) * 1000 + time.milli

/-- Milliseconds since the first of January 1970. -/
def millis (time : Time) : Int :=
  ((time.days * 86400000 + time.ofDay : Nat) : Int) - 719528 * 86400000

/-- `%Y-%m-%dT%H:%M:%S%.3fZ`. -/
def text (time : Time) : List Char :=
  padded 4 time.year ++ '-' :: (padded 2 time.month ++ '-' ::
    (padded 2 time.day ++ 'T' :: (padded 2 time.hour ++ ':' ::
      (padded 2 time.minute ++ ':' :: (padded 2 time.second ++ '.' ::
        (padded 3 time.milli ++ ['Z']))))))

end Time

/-! ## Years and months -/

/-- A leap day every fourth year, but not in the centuries, but in every
fourth century. -/
theorem daysInYear_eq (year : Nat) :
    daysInYear year + (if year % 100 = 0 then 1 else 0) =
      365 + (if year % 4 = 0 then 1 else 0) +
        if year % 400 = 0 then 1 else 0 := by
  have inCentury : year % 400 = 0 → year % 100 = 0 := by omega
  have inFourth : year % 100 = 0 → year % 4 = 0 := by omega
  unfold daysInYear leap
  by_cases four : year % 4 = 0
  · by_cases hundred : year % 100 = 0
    · by_cases whole : year % 400 = 0
      · simp [four, hundred, whole]
      · simp [four, hundred, whole]
    · have part : year % 400 ≠ 0 := fun whole => hundred (inCentury whole)
      simp [four, hundred, part]
  · have part : year % 100 ≠ 0 := fun hundred => four (inFourth hundred)
    have none : year % 400 ≠ 0 := fun whole => part (inCentury whole)
    simp [four, part, none]

theorem daysBeforeYear_succ (year : Nat) :
    daysBeforeYear (year + 1) = daysBeforeYear year + daysInYear year := by
  have fourth : (year + 1 + 3) / 4 =
      (year + 3) / 4 + if year % 4 = 0 then 1 else 0 := by
    split <;> omega
  have century : (year + 1 + 99) / 100 =
      (year + 99) / 100 + if year % 100 = 0 then 1 else 0 := by
    split <;> omega
  have cycle : (year + 1 + 399) / 400 =
      (year + 399) / 400 + if year % 400 = 0 then 1 else 0 := by
    split <;> omega
  have few : (year + 99) / 100 ≤ year := by omega
  have length := daysInYear_eq year
  unfold daysBeforeYear
  rw [fourth, century, cycle]
  have once : (if year % 100 = 0 then 1 else 0) ≤ 1 := by
    split <;> omega
  generalize (year + 3) / 4 = fours at *
  generalize (year + 99) / 100 = hundreds at *
  generalize (year + 399) / 400 = cycles at *
  omega

theorem daysBeforeYear_mono {year other : Nat} (le : year ≤ other) :
    daysBeforeYear year ≤ daysBeforeYear other := by
  induction le with
  | refl => exact le_rfl
  | step _ ih =>
      rw [daysBeforeYear_succ]
      omega

theorem daysBeforeMonth_succ (year : Nat) {month : Nat} (inYear : month < 12) :
    daysBeforeMonth year (month + 1) =
      daysBeforeMonth year month + (monthLengths year).getD month 0 := by
  have lengths : (monthLengths year).length = 12 := rfl
  unfold daysBeforeMonth
  rw [List.take_add_one, List.sum_append, List.getD_eq_getElem?_getD,
    List.getElem?_eq_getElem (by omega)]
  rfl

theorem daysBeforeMonth_year (year : Nat) :
    daysBeforeMonth year 12 = daysInYear year := by
  unfold daysBeforeMonth daysInYear monthLengths
  split <;> simp [*]

theorem daysBeforeMonth_mono (year : Nat) {month other : Nat}
    (le : month ≤ other) :
    daysBeforeMonth year month ≤ daysBeforeMonth year other := by
  unfold daysBeforeMonth
  rw [← Nat.add_sub_of_le le, List.take_add, List.sum_append]
  exact Nat.le_add_right _ _

theorem monthLength_le (year month : Nat) :
    (monthLengths year).getD month 0 ≤ 31 := by
  rw [List.getD_eq_getElem?_getD]
  cases found : (monthLengths year)[month]? with
  | none => simp
  | some length =>
      have member := List.mem_of_getElem? found
      simp only [monthLengths, List.mem_cons, List.not_mem_nil,
        or_false] at member
      simp only [Option.getD_some]
      split at member <;> omega

/-! ## The order of times -/

namespace Time

variable {time other first second : Time}

theorem days_in_month (valid : time.Valid) :
    daysBeforeMonth time.year (time.month - 1) + (time.day - 1) <
      daysBeforeMonth time.year time.month := by
  have months := valid.month
  have inYear : time.month - 1 < 12 := by omega
  have next := daysBeforeMonth_succ time.year inYear
  rw [Nat.sub_add_cancel valid.month.1] at next
  have day := valid.day
  omega

theorem days_in_year (valid : time.Valid) :
    daysBeforeYear time.year ≤ time.days ∧
      time.days < daysBeforeYear (time.year + 1) := by
  have inMonth := days_in_month valid
  have months := daysBeforeMonth_mono time.year valid.month.2
  rw [daysBeforeMonth_year] at months
  have next := daysBeforeYear_succ time.year
  unfold days
  omega

theorem ofDay_lt (valid : time.Valid) : time.ofDay < 86400000 := by
  have hour := valid.hour
  have minute := valid.minute
  have second := valid.second
  have milli := valid.milli
  unfold ofDay
  omega

theorem days_lt_of_year (valid : first.Valid) (later : second.Valid)
    (less : first.year < second.year) : first.days < second.days := by
  have before := (days_in_year valid).2
  have after := (days_in_year later).1
  have next : first.year + 1 ≤ second.year := less
  have between := daysBeforeYear_mono next
  omega

theorem days_lt_of_month (valid : first.Valid)
    (same : first.year = second.year)
    (less : first.month < second.month) : first.days < second.days := by
  have before := days_in_month valid
  have between := daysBeforeMonth_mono first.year
    (Nat.le_sub_one_of_lt less)
  unfold days
  rw [← same]
  omega

theorem millis_lt_of_days (valid : first.Valid)
    (less : first.days < second.days) : first.millis < second.millis := by
  have day := ofDay_lt valid
  unfold millis
  omega

theorem millis_lt_of_ofDay (same : first.days = second.days)
    (less : first.ofDay < second.ofDay) : first.millis < second.millis := by
  unfold millis
  omega

theorem fields_small (valid : time.Valid) :
    time.month < 10 ^ 2 ∧ time.day < 10 ^ 2 ∧ time.hour < 10 ^ 2 ∧
      time.minute < 10 ^ 2 ∧ time.second < 10 ^ 2 := by
  have month := valid.month
  have day := valid.day
  have short := monthLength_le time.year (time.month - 1)
  have hour := valid.hour
  have minute := valid.minute
  have second := valid.second
  omega

/-- The fields of a text, from the year to the milliseconds. -/
theorem text_lt_iff (valid : first.Valid) (later : second.Valid) :
    first.text < second.text ↔
      first.year < second.year ∨ first.year = second.year ∧
      (first.month < second.month ∨ first.month = second.month ∧
      (first.day < second.day ∨ first.day = second.day ∧
      (first.hour < second.hour ∨ first.hour = second.hour ∧
      (first.minute < second.minute ∨ first.minute = second.minute ∧
      (first.second < second.second ∨ first.second = second.second ∧
        first.milli < second.milli))))) := by
  obtain ⟨month, day, hour, minute, sec⟩ := fields_small valid
  obtain ⟨month', day', hour', minute', sec'⟩ := fields_small later
  unfold text
  rw [padded_append_lt valid.year later.year, List.cons_lt_cons_iff,
    padded_append_lt month month', List.cons_lt_cons_iff,
    padded_append_lt day day', List.cons_lt_cons_iff,
    padded_append_lt hour hour', List.cons_lt_cons_iff,
    padded_append_lt minute minute', List.cons_lt_cons_iff,
    padded_append_lt sec sec', List.cons_lt_cons_iff,
    padded_append_lt valid.milli later.milli]
  simp

/-- The texts are ordered like the instants. -/
theorem millis_lt_of_text_lt (valid : first.Valid) (later : second.Valid)
    (less : first.text < second.text) : first.millis < second.millis := by
  rcases (text_lt_iff valid later).mp less with
    year | ⟨sameYear, month | ⟨sameMonth, day | ⟨sameDay, time⟩⟩⟩
  · exact millis_lt_of_days valid (days_lt_of_year valid later year)
  · exact millis_lt_of_days valid
      (days_lt_of_month valid sameYear month)
  · apply millis_lt_of_days valid
    have dayValid := valid.day
    unfold days
    rw [sameYear, sameMonth]
    omega
  · have sameDays : first.days = second.days := by
      unfold days
      rw [sameYear, sameMonth, sameDay]
    apply millis_lt_of_ofDay sameDays
    have minute := valid.minute
    have second := valid.second
    have milli := valid.milli
    unfold ofDay
    omega

/-! ## Every instant has its time -/

/-- A number lies between two neighbours of a sequence that starts below it
and passes it. -/
theorem exists_between (bound : Nat → Nat) {number : Nat}
    (starts : bound 0 ≤ number) (passes : ∃ index, number < bound index) :
    ∃ index, bound index ≤ number ∧ number < bound (index + 1) ∧
      index < Nat.find passes := by
  have passed := Nat.find_spec passes
  cases isFirst : Nat.find passes with
  | zero =>
      rw [isFirst] at passed
      omega
  | succ index =>
      rw [isFirst] at passed
      have earlier := Nat.find_min passes (m := index) (by omega)
      exact ⟨index, by omega, passed, by omega⟩

theorem exists_date (number : Nat)
    (inYears : number < daysBeforeYear 10000) :
    ∃ year month day, year < 10000 ∧ (1 ≤ month ∧ month ≤ 12) ∧
      (1 ≤ day ∧ day ≤ (monthLengths year).getD (month - 1) 0) ∧
      daysBeforeYear year + daysBeforeMonth year (month - 1) + (day - 1) =
        number := by
  have years : ∃ year, number < daysBeforeYear year := ⟨_, inYears⟩
  obtain ⟨year, yearBefore, yearAfter, yearLess⟩ :=
    exists_between daysBeforeYear (Nat.zero_le _) years
  rw [daysBeforeYear_succ] at yearAfter
  have months : ∃ month, number - daysBeforeYear year <
      daysBeforeMonth year month := by
    refine ⟨12, ?_⟩
    rw [daysBeforeMonth_year]
    omega
  obtain ⟨month, monthBefore, monthAfter, monthLess⟩ :=
    exists_between (daysBeforeMonth year) (Nat.zero_le _) months
  have inYear : month < 12 := by
    apply lt_of_lt_of_le monthLess
    apply Nat.find_min'
    rw [daysBeforeMonth_year]
    omega
  rw [daysBeforeMonth_succ year inYear] at monthAfter
  refine ⟨year, month + 1,
    number - daysBeforeYear year - daysBeforeMonth year month + 1,
    lt_of_lt_of_le yearLess (Nat.find_min' _ inYears), by omega, ?_, ?_⟩
  · rw [Nat.add_sub_cancel]
    omega
  · rw [Nat.add_sub_cancel]
    omega

/-- Every millisecond of the years of four digits is a time. -/
theorem exists_time (instant : Int)
    (low : -62167219200000 ≤ instant) (high : instant < 253402300800000) :
    ∃ time : Time, time.Valid ∧ time.millis = instant := by
  obtain ⟨number, isNumber⟩ :=
    Int.eq_ofNat_of_zero_le (a := instant + 62167219200000) (by omega)
  have inYears : number / 86400000 < daysBeforeYear 10000 := by
    rw [show daysBeforeYear 10000 = 3652425 from rfl]
    omega
  obtain ⟨year, month, day, inYear, inMonths, inMonth, isDay⟩ :=
    exists_date (number / 86400000) inYears
  refine ⟨⟨year, month, day, number % 86400000 / 3600000,
    number % 3600000 / 60000, number % 60000 / 1000, number % 1000⟩,
    ⟨inYear, inMonths, inMonth, ?_, ?_, ?_, ?_⟩, ?_⟩
  · dsimp only
    omega
  · dsimp only
    omega
  · dsimp only
    omega
  · dsimp only
    omega
  · simp only [millis, days, ofDay, isDay]
    omega

/-! ## The time of an instant and of a text -/

/-- The time of an instant in milliseconds since 1970. -/
def ofMillis (instant : Int) : Time :=
  let total := (instant + 719528 * 86400000).toNat
  let days := total / 86400000
  let year := Nat.findGreatest (fun year => daysBeforeYear year ≤ days) 9999
  let ofYear := days - daysBeforeYear year
  let month :=
    Nat.findGreatest (fun month => daysBeforeMonth year month ≤ ofYear) 11
  { year
    month := month + 1
    day := ofYear - daysBeforeMonth year month + 1
    hour := total % 86400000 / 3600000
    minute := total % 3600000 / 60000
    second := total % 60000 / 1000
    milli := total % 1000 }

/-- The greatest index whose bound is not above the number. -/
theorem findGreatest_eq (bound : Nat → Nat) {number limit index : Nat}
    (mono : ∀ {first second}, first ≤ second → bound first ≤ bound second)
    (inLimit : index ≤ limit) (low : bound index ≤ number)
    (high : number < bound (index + 1)) :
    Nat.findGreatest (fun index => bound index ≤ number) limit = index := by
  rw [Nat.findGreatest_eq_iff]
  refine ⟨inLimit, fun _ => low, ?_⟩
  intro later less _ le
  have passed := mono (Nat.succ_le_of_lt less)
  exact absurd (high.trans_le passed) (Nat.not_lt_of_le le)

theorem ofMillis_millis (valid : time.Valid) :
    ofMillis time.millis = time := by
  obtain ⟨yearLow, yearHigh⟩ := days_in_year valid
  have monthHigh := days_in_month valid
  have month := valid.month
  have day := valid.day
  have shift : time.millis + 719528 * 86400000 =
      ((time.days * 86400000 + time.ofDay : Nat) : Int) := by
    unfold millis
    omega
  have ofDay := ofDay_lt valid
  have isDays : (time.days * 86400000 + time.ofDay) / 86400000 =
      time.days := by omega
  have inYears : time.year ≤ 9999 := Nat.le_of_lt_succ valid.year
  have isYear := findGreatest_eq daysBeforeYear daysBeforeYear_mono inYears
    yearLow yearHigh
  have inMonths : time.month - 1 ≤ 11 := by omega
  have monthLow : daysBeforeMonth time.year (time.month - 1) ≤
      time.days - daysBeforeYear time.year := by
    unfold days
    omega
  have monthAfter : time.days - daysBeforeYear time.year <
      daysBeforeMonth time.year (time.month - 1 + 1) := by
    rw [Nat.sub_add_cancel month.1]
    unfold days
    omega
  have isMonth := findGreatest_eq (daysBeforeMonth time.year)
    (daysBeforeMonth_mono time.year) inMonths monthLow monthAfter
  have hour := valid.hour
  have minute := valid.minute
  have second := valid.second
  have milli := valid.milli
  have isOfDay : (time.days * 86400000 + time.ofDay) % 86400000 =
      time.ofDay := by omega
  have clock : time.ofDay =
    ((time.hour * 60 + time.minute) * 60 + time.second) * 1000 +
      time.milli := rfl
  simp only [ofMillis, shift, Int.toNat_natCast, isDays, isYear, isMonth]
  apply Time.ext
  · rfl
  · exact Nat.sub_add_cancel month.1
  · simp only [days]
    omega
  · simp only []
    omega
  · simp only []
    omega
  · simp only []
    omega
  · simp only []
    omega

/-- The number of a run of digits. -/
def readDigits (text : List Char) : Nat :=
  text.foldl (fun value char => value * 10 + (char.toNat - 48)) 0

theorem digit_value {value : Nat} (small : value < 10) :
    (digit value).toNat - 48 = value := by
  have all : ∀ value : Fin 10, (digit value).toNat - 48 = value := by decide
  exact all ⟨value, small⟩

theorem foldl_padded {width value : Nat} (small : value < 10 ^ width)
    (start : Nat) :
    (padded width value).foldl
        (fun value char => value * 10 + (char.toNat - 48)) start =
      start * 10 ^ width + value := by
  induction width generalizing value start with
  | zero =>
      obtain rfl : value = 0 := by simpa using small
      simp [padded]
  | succ width ih =>
      have positive : 0 < 10 ^ width := by positivity
      have whole := Nat.div_add_mod value (10 ^ width)
      rw [padded, List.foldl_cons, ih (Nat.mod_lt _ positive),
        digit_value (head_small small), pow_succ]
      linarith

theorem readDigits_padded {width value : Nat} (small : value < 10 ^ width) :
    readDigits (padded width value) = value := by
  unfold readDigits
  rw [foldl_padded small, Nat.zero_mul, Nat.zero_add]

/-- The fields of a text, each with the character behind it. -/
def ofText (text : List Char) : Time :=
  let afterYear := text.drop 5
  let afterMonth := afterYear.drop 3
  let afterDay := afterMonth.drop 3
  let afterHour := afterDay.drop 3
  let afterMinute := afterHour.drop 3
  let afterSecond := afterMinute.drop 3
  { year := readDigits (text.take 4)
    month := readDigits (afterYear.take 2)
    day := readDigits (afterMonth.take 2)
    hour := readDigits (afterDay.take 2)
    minute := readDigits (afterHour.take 2)
    second := readDigits (afterMinute.take 2)
    milli := readDigits (afterSecond.take 3) }

/-- A field at the head of a text, and the text behind it. -/
theorem take_field (width value : Nat) (rest : List Char) :
    (padded width value ++ rest).take width = padded width value :=
  List.take_left' (length_padded width value)

theorem drop_field (width value : Nat) (char : Char) (rest : List Char) :
    (padded width value ++ char :: rest).drop (width + 1) = rest := by
  rw [← List.drop_drop, List.drop_left' (length_padded width value)]
  rfl

theorem ofText_text (valid : time.Valid) : ofText time.text = time := by
  obtain ⟨month, day, hour, minute, second⟩ := fields_small valid
  have year : time.year < 10 ^ 4 := valid.year
  have milli : time.milli < 10 ^ 3 := valid.milli
  simp only [ofText, text, drop_field 4, drop_field 2, take_field,
    readDigits_padded year, readDigits_padded month, readDigits_padded day,
    readDigits_padded hour, readDigits_padded minute,
    readDigits_padded second, readDigits_padded milli]

end Time

end Calendar
