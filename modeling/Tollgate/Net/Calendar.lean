import Tollgate.Library.Decimal

/-!
# The calendar

The dates of `recovery.rs`: a Unix time becomes a year, by taking off one year after another, a
month in the same way, and a time of day. `format_rfc3339_now` writes it down.
-/

set_option autoImplicit false
set_option relaxedAutoImplicit false

namespace Tollgate

open Decimal

/-- A date and a time of day. -/
structure CalendarTime where
  year : ℕ
  month : ℕ
  day : ℕ
  hour : ℕ
  minute : ℕ
  second : ℕ
  deriving DecidableEq

/-- The Gregorian leap rule. -/
def isLeapYear (year : ℕ) : Bool :=
  (decide (year % 4 = 0) && decide (year % 100 ≠ 0)) || decide (year % 400 = 0)

/-- The days of a year. -/
def daysInYear (year : ℕ) : ℕ :=
  if isLeapYear year then 366 else 365

theorem daysInYear_pos (year : ℕ) : 0 < daysInYear year := by
  unfold daysInYear
  split_ifs
  · decide
  · decide

/-- The loop over the years from the one given. -/
def yearAndDay (year days : ℕ) : ℕ × ℕ :=
  if days < daysInYear year then (year, days)
  else yearAndDay (year + 1) (days - daysInYear year)
termination_by days
decreasing_by
  have hpos := daysInYear_pos year
  omega

/-- `days_to_year_and_day`. -/
def daysToYearAndDay (days : ℕ) : ℕ × ℕ :=
  yearAndDay 1970 days

/-- The days of the months. -/
def monthDays (leap : Bool) : List ℕ :=
  if leap then [31, 29, 31, 30, 31, 30, 31, 31, 30, 31, 30, 31]
  else [31, 28, 31, 30, 31, 30, 31, 31, 30, 31, 30, 31]

/-- The loop over the months, the first of which has the number given. -/
def monthAndDay : List ℕ → ℕ → ℕ → ℕ × ℕ
  | [], _, _ => (12, 31)
  | mdays :: rest, month, remaining =>
    if remaining < mdays then (month, remaining + 1)
    else monthAndDay rest (month + 1) (remaining - mdays)

/-- `day_of_year_to_month_day`. -/
def dayOfYearToMonthDay (dayOfYear : ℕ) (leap : Bool) : ℕ × ℕ :=
  monthAndDay (monthDays leap) 1 dayOfYear

/-- `unix_to_calendar`. -/
def unixToCalendar (secs : ℕ) : CalendarTime :=
  let days := secs / 86400
  let remainder := secs % 86400
  let yearDay := daysToYearAndDay days
  let monthDay := dayOfYearToMonthDay yearDay.2 (isLeapYear yearDay.1)
  { year := yearDay.1
    month := monthDay.1
    day := monthDay.2
    hour := remainder / 3600
    minute := remainder % 3600 / 60
    second := remainder % 60 }

/-- A number with zeros in front, up to a width. -/
def zeroPadded (width number : ℕ) : List Char :=
  List.replicate (width - (digits number).length) '0' ++ digits number

/-- `format_rfc3339_now`, at a Unix time. -/
def formatRfc3339 (secs : ℕ) : String :=
  let time := unixToCalendar secs
  String.ofList (zeroPadded 4 time.year ++ ('-' :: zeroPadded 2 time.month ++
    ('-' :: zeroPadded 2 time.day ++ ('T' :: zeroPadded 2 time.hour ++
      (':' :: zeroPadded 2 time.minute ++ (':' :: zeroPadded 2 time.second ++ ['Z']))))))

theorem isDigit_of_mem_zeroPadded {width number : ℕ} {char : Char}
    (hchar : char ∈ zeroPadded width number) : char.isDigit = true := by
  rcases List.mem_append.mp hchar with hzero | hdigits
  · rw [List.eq_of_mem_replicate hzero]
    decide
  · exact Nat.isDigit_of_mem_toDigits (by decide) (by decide) hdigits

/-- A date is one line. -/
theorem newline_notMem_formatRfc3339 (secs : ℕ) : '\n' ∉ (formatRfc3339 secs).toList := by
  have hpadded (width number : ℕ) : '\n' ∉ zeroPadded width number := fun hmem ↦
    absurd (isDigit_of_mem_zeroPadded hmem) (by decide)
  simp [formatRfc3339, hpadded]

end Tollgate
