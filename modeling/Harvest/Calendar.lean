/-!
# The calendar

Dates of the Gregorian calendar, extended to all years, and their numbering by days since 1970.
Years are counted from March, so that a leap day is the last day of its year, of its four years
and of its four hundred; `Date.ofDayNumber` peels these periods off one after the other.
-/

namespace Harvest

/-- A year, a month and a day of the month, both counted from one. -/
structure Date where
  year : Int
  month : Nat
  day : Nat
  deriving DecidableEq, Repr

namespace Date

/-- Every fourth year is a leap year, but of the centuries only every fourth. -/
def isLeapYear (year : Int) : Bool :=
  year % 4 = 0 && (year % 100 ≠ 0 || year % 400 = 0)

/-- The number of days of a month. -/
def daysInMonth (year : Int) (month : Nat) : Nat :=
  if month = 2 then (if isLeapYear year then 29 else 28)
  else if month = 4 ∨ month = 6 ∨ month = 9 ∨ month = 11 then 30
  else 31

/-- Whether the calendar has this date. -/
def isReal (d : Date) : Bool :=
  1 ≤ d.month && d.month ≤ 12 && 1 ≤ d.day && d.day ≤ daysInMonth d.year d.month

/-- Days from the first of March of year zero to the first of January 1970. -/
def epoch : Int := 719468

/-- The number of a date: days since the first of January 1970. -/
def dayNumber (d : Date) : Int :=
  let year := if d.month ≤ 2 then d.year - 1 else d.year
  let month : Int := if d.month ≤ 2 then d.month + 9 else d.month - 3
  365 * year + year / 4 - year / 100 + year / 400 + (153 * month + 2) / 5 + (d.day - 1) - epoch

/-- The date with a number. -/
def ofDayNumber (n : Int) : Date :=
  let days := n + epoch
  let era := days / 146097
  let days := days % 146097
  let century := min (days / 36524) 3
  let days := days - 36524 * century
  let olympiad := days / 1461
  let days := days % 1461
  let year := min (days / 365) 3
  let days := days - 365 * year
  let year := 400 * era + 100 * century + 4 * olympiad + year
  let month := (5 * days + 2) / 153
  let day := days - (153 * month + 2) / 5 + 1
  { year := if month < 10 then year else year + 1
    month := (if month < 10 then month + 3 else month - 9).toNat
    day := day.toNat }

/-- The first and the last year in which instants are kept. -/
def minYear : Int := -262143

@[inherit_doc minYear]
def maxYear : Int := 262142

end Date

end Harvest
