import Snippet.Decimal.Numeral

/-!
# Dates

Dates of the Gregorian calendar, continued to all years that the calendar holds, with the year
before year 1 as year 0. Dates are ordered and counted through their day number.
-/

namespace Snippet

namespace Calendar

/-- The first year of the calendar. -/
def firstYear : Int := -262143

/-- The last year of the calendar. -/
def lastYear : Int := 262142

/-- Whether a year has a leap day. -/
def isLeap (year : Int) : Bool := year % 4 == 0 && (year % 100 != 0 || year % 400 == 0)

/-- The number of days of a month. -/
def monthDays (year : Int) (month : Nat) : Nat :=
  if month = 2 then if isLeap year then 29 else 28
  else if month = 4 || month = 6 || month = 9 || month = 11 then 30
  else 31

-- the sum of no numbers is the literal zero, whatever else is imported
attribute [local instance (100000)] Zero.ofOfNat0

/-- The days of a year before a month. -/
def daysBeforeMonth (year : Int) (month : Nat) : Nat :=
  ((List.range (month - 1)).map fun m => monthDays year (m + 1)).sum

/-- The days from the start of year 1 to the start of a year; negative for an earlier year. -/
def daysBeforeYear (year : Int) : Int :=
  let y := year - 1
  365 * y + y / 4 - y / 100 + y / 400

/-- Whether a year, month and day make up a date of the calendar. -/
def isDate (year : Int) (month day : Nat) : Bool :=
  firstYear ≤ year && year ≤ lastYear && 1 ≤ month && month ≤ 12 && 1 ≤ day &&
    day ≤ monthDays year month

end Calendar

/-- A date of the calendar. -/
structure Date where
  year : Int
  month : Nat
  day : Nat
  valid : Calendar.isDate year month day = true
  deriving DecidableEq

namespace Date

/-- The date with a given year, month and day, if there is one. -/
def of? (year : Int) (month day : Nat) : Option Date :=
  if h : Calendar.isDate year month day = true then some ⟨year, month, day, h⟩ else none

/-- The number of the day, counted from the first day of year 1, which has number 1. -/
def dayNumber (d : Date) : Int :=
  Calendar.daysBeforeYear d.year + Calendar.daysBeforeMonth d.year d.month + d.day

/-- Whether a date comes before another. -/
def isBefore (a b : Date) : Bool := a.dayNumber < b.dayNumber

/-- The text of a year: at least four digits, with a minus in front of a negative year and a plus in
front of one with more digits. -/
def yearText (year : Int) : Text :=
  let magnitude := Decimal.padded 4 year.natAbs
  if year < 0 then '-' :: magnitude else if 9999 < year then '+' :: magnitude else magnitude

/-- The text of a date as month, day and year with slashes. -/
def slashed (d : Date) : Text :=
  Decimal.padded 2 d.month ++ '/' :: Decimal.padded 2 d.day ++ '/' :: yearText d.year

end Date

end Snippet
