import Tollgate.Library.Blocks
import Tollgate.Net.Calendar

/-!
# The calendar is the Gregorian one

`unix_to_calendar` takes off days, then years, then months, then hours and minutes. Each of these
loops and divisions finds the block of days or seconds that the rest lies in, with blocks as long as
the Gregorian calendar has them. So the date is there, the seconds can be told from it, and later
seconds have later dates (`unixToCalendar_gregorian`).

The numbers of the source have 64 bits. They are natural numbers here, for none of them comes near
that: what is taken off was compared before, and the year is the largest of the others.
-/

set_option autoImplicit false
set_option relaxedAutoImplicit false

namespace Tollgate

open Blocks

/-! ### The Gregorian calendar -/

/-- Four divides the year, and four hundred if a hundred does. -/
def IsLeap (year : ℕ) : Prop :=
  4 ∣ year ∧ (100 ∣ year → 400 ∣ year)

instance : DecidablePred IsLeap :=
  fun _ ↦ inferInstanceAs (Decidable (_ ∧ _))

/-- The days of a month, the first of which is January. There are no others than the twelve. -/
def daysInMonth (year : ℕ) : ℕ → ℕ
  | 2 => if IsLeap year then 29 else 28
  | 4 | 6 | 9 | 11 => 30
  | 1 | 3 | 5 | 7 | 8 | 10 | 12 => 31
  | _ => 0

/-- The days of all twelve. -/
def yearLength (year : ℕ) : ℕ :=
  start (daysInMonth year) 1 13

namespace CalendarTime

/-- There is such a date, since 1970, and such a time of day. -/
structure Valid (time : CalendarTime) : Prop where
  year : 1970 ≤ time.year
  month : 1 ≤ time.month ∧ time.month ≤ 12
  day : 1 ≤ time.day ∧ time.day ≤ daysInMonth time.year time.month
  hour : time.hour < 24
  minute : time.minute < 60
  second : time.second < 60

/-- The days since the start of 1970. -/
def dayNumber (time : CalendarTime) : ℕ :=
  start yearLength 1970 time.year + start (daysInMonth time.year) 1 time.month + (time.day - 1)

/-- The seconds since then. -/
def toUnix (time : CalendarTime) : ℕ :=
  ((time.dayNumber * 24 + time.hour) * 60 + time.minute) * 60 + time.second

/-- The parts in the order in which they are compared. -/
def parts (time : CalendarTime) : List ℕ :=
  [time.year, time.month, time.day, time.hour, time.minute, time.second]

end CalendarTime

/-! ### The loop over the years -/

theorem isLeapYear_iff (year : ℕ) : isLeapYear year = true ↔ IsLeap year := by
  simp only [isLeapYear, IsLeap, Bool.or_eq_true, Bool.and_eq_true, decide_eq_true_eq,
    Nat.dvd_iff_mod_eq_zero]
  omega

theorem map_daysInMonth (year : ℕ) :
    (List.range' 1 12).map (daysInMonth year) = monthDays (isLeapYear year) := by
  unfold monthDays
  by_cases hleap : IsLeap year
  · rw [if_pos ((isLeapYear_iff year).mpr hleap)]
    simp [List.range', daysInMonth, hleap]
  · rw [if_neg (mt (isLeapYear_iff year).mp hleap)]
    simp [List.range', daysInMonth, hleap]

theorem yearLength_eq (year : ℕ) : yearLength year = (monthDays (isLeapYear year)).sum := by
  rw [yearLength, start, ← map_daysInMonth]
  rfl

theorem daysInYear_eq_yearLength (year : ℕ) : daysInYear year = yearLength year := by
  rw [yearLength_eq, daysInYear]
  cases isLeapYear year with
  | false => rfl
  | true => rfl

/-- The loop over the years finds the year that the day lies in. -/
theorem lies_yearAndDay (year days : ℕ) :
    Lies yearLength year days (yearAndDay year days).1 (yearAndDay year days).2 := by
  induction year, days using yearAndDay.induct with
  | case1 year days hshort =>
    rw [yearAndDay, if_pos hshort]
    rw [daysInYear_eq_yearLength] at hshort
    exact Lies.front hshort
  | case2 year days hlong ih =>
    rw [yearAndDay, if_neg hlong]
    rw [daysInYear_eq_yearLength] at hlong ih
    rw [daysInYear_eq_yearLength]
    exact Lies.behind (Nat.not_lt.mp hlong) ih

/-! ### The loop over the months -/

/-- The loop over the months ends without having found one: what it returns is the last line of
`day_of_year_to_month_day`. -/
def runsOut : List ℕ → ℕ → Bool
  | [], _ => true
  | mdays :: rest, remaining => !decide (remaining < mdays) && runsOut rest (remaining - mdays)

theorem runsOut_iff (months : List ℕ) (remaining : ℕ) :
    runsOut months remaining = true ↔ months.sum ≤ remaining := by
  induction months generalizing remaining with
  | nil => simp [runsOut]
  | cons mdays rest ih =>
    rw [runsOut, Bool.and_eq_true, ih, List.sum_cons, Bool.not_eq_true', decide_eq_false_iff_not]
    omega

/-- Where it does not run out it finds the month that the day lies in. -/
theorem lies_monthAndDay {length : ℕ → ℕ} {count month remaining : ℕ}
    (hends : runsOut ((List.range' month count).map length) remaining = false) :
    ∃ index offset, monthAndDay ((List.range' month count).map length) month remaining =
      (index, offset + 1) ∧ Lies length month remaining index offset := by
  induction count generalizing month remaining with
  | zero => exact absurd hends (by simp [runsOut])
  | succ count ih =>
    rw [List.range'_succ, List.map_cons] at hends ⊢
    rw [monthAndDay]
    split_ifs with hshort
    · exact ⟨month, remaining, rfl, Lies.front hshort⟩
    · rw [runsOut, decide_eq_false hshort, Bool.not_false, Bool.true_and] at hends
      obtain ⟨index, offset, hfound, hlies⟩ := ih hends
      exact ⟨index, offset, hfound, hlies.behind (Nat.not_lt.mp hshort)⟩

theorem month_of_daysInMonth_pos {year month : ℕ} (hpos : 0 < daysInMonth year month) :
    1 ≤ month ∧ month ≤ 12 := by
  unfold daysInMonth at hpos
  split at hpos <;> omega

/-! ### Dates and times of day -/

section Dates

variable (secs : ℕ)

theorem lies_day : Lies (fun _ ↦ 86400) 0 secs (secs / 86400) (secs % 86400) :=
  lies_div (by decide) secs

theorem lies_year :
    Lies yearLength 1970 (secs / 86400) (unixToCalendar secs).year
      (daysToYearAndDay (secs / 86400)).2 :=
  lies_yearAndDay 1970 (secs / 86400)

/-- The day is one of the year, so the loop over the months finds its month. -/
theorem runsOut_monthDays :
    runsOut (monthDays (isLeapYear (unixToCalendar secs).year))
      (daysToYearAndDay (secs / 86400)).2 = false := by
  have hday := (lies_year secs).offset_lt
  rw [yearLength_eq] at hday
  rw [← Bool.not_eq_true, runsOut_iff, not_le]
  exact hday

theorem lies_month :
    1 ≤ (unixToCalendar secs).day ∧
      Lies (daysInMonth (unixToCalendar secs).year) 1 (daysToYearAndDay (secs / 86400)).2
        (unixToCalendar secs).month ((unixToCalendar secs).day - 1) := by
  have hends := runsOut_monthDays secs
  rw [← map_daysInMonth] at hends
  obtain ⟨index, offset, hfound, hlies⟩ := lies_monthAndDay hends
  rw [map_daysInMonth] at hfound
  have hmonth : (unixToCalendar secs).month = index := congrArg Prod.fst hfound
  have hday : (unixToCalendar secs).day = offset + 1 := congrArg Prod.snd hfound
  rw [hmonth, hday]
  exact ⟨Nat.le_add_left 1 offset, hlies⟩

theorem lies_hour :
    Lies (fun _ ↦ 3600) 0 (secs % 86400) (unixToCalendar secs).hour (secs % 86400 % 3600) :=
  lies_div (by decide) (secs % 86400)

theorem lies_minute :
    Lies (fun _ ↦ 60) 0 (secs % 86400 % 3600) (unixToCalendar secs).minute
      (unixToCalendar secs).second := by
  have hsecond : (unixToCalendar secs).second = secs % 86400 % 3600 % 60 :=
    (Nat.mod_mod_of_dvd (secs % 86400) (by decide)).symm
  rw [hsecond]
  exact lies_div (by decide) (secs % 86400 % 3600)

theorem valid_unixToCalendar : (unixToCalendar secs).Valid := by
  obtain ⟨hday, hmonth⟩ := lies_month secs
  have hlast := hmonth.offset_lt
  refine ⟨(lies_year secs).first_le, ?_, ⟨hday, by omega⟩, ?_, ?_, (lies_minute secs).offset_lt⟩
  · exact month_of_daysInMonth_pos (Nat.zero_lt_of_lt hlast)
  · exact Nat.div_lt_of_lt_mul (Nat.mod_lt secs (by decide))
  · exact Nat.div_lt_of_lt_mul (Nat.mod_lt (secs % 86400) (by decide))

/-- A date is as many days away as the days taken off for it. -/
theorem dayNumber_unixToCalendar : (unixToCalendar secs).dayNumber = secs / 86400 := by
  rw [CalendarTime.dayNumber, Nat.add_assoc, ← (lies_month secs).2.place_eq,
    ← (lies_year secs).place_eq]

theorem toUnix_unixToCalendar : (unixToCalendar secs).toUnix = secs := by
  have hday := (lies_day secs).place_eq
  have hhour := (lies_hour secs).place_eq
  have hminute := (lies_minute secs).place_eq
  rw [start_const] at hday hhour hminute
  rw [CalendarTime.toUnix, dayNumber_unixToCalendar]
  omega

/-- No year is shorter than a day. -/
theorem year_le : (unixToCalendar secs).year ≤ 1970 + secs / 86400 := by
  have hpos (year : ℕ) : 0 < yearLength year := by
    rw [← daysInYear_eq_yearLength]
    exact daysInYear_pos year
  have hindex := @index_le_start yearLength 1970 (unixToCalendar secs).year hpos
  have hplace := (lies_year secs).place_eq
  omega

/-- Hour, minute and second are in the order of the seconds of the day. -/
theorem time_lt_iff (later : ℕ) :
    [(unixToCalendar secs).hour, (unixToCalendar secs).minute, (unixToCalendar secs).second] <
        [(unixToCalendar later).hour, (unixToCalendar later).minute,
          (unixToCalendar later).second] ↔
      [secs % 86400] < [later % 86400] := by
  have hminute := (lies_minute secs).cons_lt_cons_iff (lies_minute later) [] []
  have hhour := (lies_hour secs).cons_lt_cons_iff (lies_hour later) [] []
  exact (cons_lt_cons_congr fun _ ↦ hminute).trans hhour

/-- In a year month and day are in the order of the days of the year. -/
theorem month_lt_iff {later : ℕ} (hyear : (unixToCalendar secs).year = (unixToCalendar later).year)
    (rest rest' : List ℕ) :
    (unixToCalendar secs).month :: (unixToCalendar secs).day :: rest <
        (unixToCalendar later).month :: (unixToCalendar later).day :: rest' ↔
      (daysToYearAndDay (secs / 86400)).2 :: rest <
        (daysToYearAndDay (later / 86400)).2 :: rest' := by
  obtain ⟨hday, hmonth⟩ := lies_month secs
  obtain ⟨hday', hmonth'⟩ := lies_month later
  rw [← hyear] at hmonth'
  rw [← hmonth.cons_lt_cons_iff hmonth']
  -- the days are counted from one
  have hcount : (unixToCalendar secs).day :: rest < (unixToCalendar later).day :: rest' ↔
      ((unixToCalendar secs).day - 1) :: rest < ((unixToCalendar later).day - 1) :: rest' := by
    rw [List.cons_lt_cons_iff, List.cons_lt_cons_iff]
    refine or_congr ?_ (and_congr_left' ?_)
    · omega
    · omega
  exact cons_lt_cons_congr fun _ ↦ hcount

/-- Dates are in the order of their seconds. -/
theorem parts_lt_iff (later : ℕ) :
    (unixToCalendar secs).parts < (unixToCalendar later).parts ↔ secs < later := by
  have hdate := (lies_year secs).cons_lt_cons_iff (lies_year later)
    [(unixToCalendar secs).hour, (unixToCalendar secs).minute, (unixToCalendar secs).second]
    [(unixToCalendar later).hour, (unixToCalendar later).minute, (unixToCalendar later).second]
  calc (unixToCalendar secs).parts < (unixToCalendar later).parts
      ↔ _ := cons_lt_cons_congr fun hyear ↦ month_lt_iff secs hyear _ _
    _ ↔ _ := hdate
    _ ↔ [secs / 86400, secs % 86400] < [later / 86400, later % 86400] :=
        cons_lt_cons_congr fun _ ↦ time_lt_iff secs later
    _ ↔ [secs] < [later] := (lies_day secs).cons_lt_cons_iff (lies_day later) [] []
    _ ↔ secs < later := by simp [List.cons_lt_cons_iff]

end Dates

/-- For every number of seconds of 64 bits there is such a date and time of day, its year fits, the
loop over the months finds the month, the seconds can be told from the date, and later seconds have
later dates. -/
theorem unixToCalendar_gregorian (secs : UInt64) :
    (unixToCalendar secs.toNat).Valid ∧ (unixToCalendar secs.toNat).year < 2 ^ 64 ∧
      runsOut (monthDays (isLeapYear (unixToCalendar secs.toNat).year))
        (daysToYearAndDay (secs.toNat / 86400)).2 = false ∧
      (unixToCalendar secs.toNat).toUnix = secs.toNat ∧
      ∀ later : UInt64, secs < later →
        (unixToCalendar secs.toNat).parts < (unixToCalendar later.toNat).parts := by
  refine ⟨valid_unixToCalendar _, ?_, runsOut_monthDays _, toUnix_unixToCalendar _,
    fun later hlater ↦ ?_⟩
  · have hyear := year_le secs.toNat
    have hsecs := secs.toNat_lt
    omega
  · exact (parts_lt_iff _ _).mpr (UInt64.lt_iff_toNat_lt.mp hlater)

/-- The leap day of 2000, and the day after the last of February 2100. -/
example :
    (unixToCalendar 951782400).parts = [2000, 2, 29, 0, 0, 0] ∧
      (unixToCalendar 4107542400).parts = [2100, 3, 1, 0, 0, 0] := by
  decide +kernel

end Tollgate
