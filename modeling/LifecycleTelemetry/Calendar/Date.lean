/-!
# Civil dates

Dates of the Gregorian calendar, extended to all years from -262143 to 262142. A date exists only
when its month and its day do, so every value of `Date` is a day. Besides the step to the next and
to the previous day this module counts days from the first of January 1970.
-/

namespace LifecycleTelemetry
namespace Calendar

/-- A year with a twenty-ninth of February. -/
def isLeap (year : Int) : Bool :=
  year % 4 == 0 && (year % 100 != 0 || year % 400 == 0)

/-- The number of days of a month; none for a number that is no month. -/
def daysIn (year : Int) (month : Nat) : Nat :=
  match month with
  | 1 | 3 | 5 | 7 | 8 | 10 | 12 => 31
  | 4 | 6 | 9 | 11 => 30
  | 2 => if isLeap year then 29 else 28
  | _ => 0

/-- The first year that has dates. -/
def firstYear : Int := -262143

/-- The last year that has dates. -/
def lastYear : Int := 262142

/-- A day of the calendar. -/
structure Date where
  year : Int
  month : Nat
  day : Nat
  year_ge : firstYear ≤ year
  year_le : year ≤ lastYear
  day_pos : 1 ≤ day
  day_le : day ≤ daysIn year month
deriving DecidableEq

namespace Date

/-- The day with the given numbers, if there is one. -/
def ofNumbers? (year : Int) (month day : Nat) : Option Date :=
  if h : firstYear ≤ year ∧ year ≤ lastYear ∧ 1 ≤ day ∧ day ≤ daysIn year month then
    some ⟨year, month, day, h.1, h.2.1, h.2.2.1, h.2.2.2⟩
  else none

/-- The day after, unless the last year is over. -/
def next? (d : Date) : Option Date :=
  if d.day < daysIn d.year d.month then ofNumbers? d.year d.month (d.day + 1)
  else if d.month < 12 then ofNumbers? d.year (d.month + 1) 1
  else ofNumbers? (d.year + 1) 1 1

/-- The day before, unless the first year has just begun. -/
def previous? (d : Date) : Option Date :=
  if 1 < d.day then ofNumbers? d.year d.month (d.day - 1)
  else if 1 < d.month then ofNumbers? d.year (d.month - 1) (daysIn d.year (d.month - 1))
  else ofNumbers? (d.year - 1) 12 31

/-- The first of January 1970. -/
def epoch : Date :=
  ⟨1970, 1, 1, by decide, by decide, by decide, by decide⟩

/-- The date that lies a number of days after the first of January 1970. Years are counted from
March, in cycles of four hundred, so that the day that leap years add comes last. -/
def ofDays? (days : Int) : Option Date :=
  let shifted := days + 719468
  let era := shifted.fdiv 146097
  let dayOfEra := (shifted - era * 146097).toNat
  let yearOfEra := (dayOfEra - dayOfEra / 1460 + dayOfEra / 36524 - dayOfEra / 146096) / 365
  let dayOfYear := dayOfEra - (365 * yearOfEra + yearOfEra / 4 - yearOfEra / 100)
  let shiftedMonth := (5 * dayOfYear + 2) / 153
  let day := dayOfYear - (153 * shiftedMonth + 2) / 5 + 1
  let month := if shiftedMonth < 10 then shiftedMonth + 3 else shiftedMonth - 9
  let year := (yearOfEra : Int) + era * 400 + (if month ≤ 2 then 1 else 0)
  ofNumbers? year month day

/-- The number of days between a date and the first of January 1970. -/
def days (d : Date) : Int :=
  let year := if d.month ≤ 2 then d.year - 1 else d.year
  let shiftedMonth := if d.month ≤ 2 then d.month + 9 else d.month - 3
  let era := year.fdiv 400
  let yearOfEra := (year - era * 400).toNat
  let dayOfYear := (153 * shiftedMonth + 2) / 5 + d.day - 1
  let dayOfEra := yearOfEra * 365 + yearOfEra / 4 - yearOfEra / 100 + dayOfYear
  era * 146097 + dayOfEra - 719468

theorem ofNumbers?_self
    (d : Date) :
    ofNumbers? d.year d.month d.day = some d :=
  dif_pos ⟨d.year_ge, d.year_le, d.day_pos, d.day_le⟩

/-- Only a month has days. -/
theorem month_bounds
    (d : Date) :
    1 ≤ d.month ∧ d.month ≤ 12 := by
  have hpos := d.day_pos
  have hle := d.day_le
  unfold daysIn at hle
  split at hle <;> omega

end Date
end Calendar
end LifecycleTelemetry
