import SqlScript.Decimal.Digits

/-!
# Dates

Dates of the proleptic Gregorian calendar, years before 1 included. Years run from −262143 to
262142. `Date.dayNumber` counts days through the whole range, so that dates can be compared across
time zones.
-/

namespace SqlScript

namespace Calendar

/-- Every fourth year, except full centuries that 400 does not divide. -/
def isLeapYear (year : Int) : Bool :=
  year % 4 == 0 && (year % 100 != 0 || year % 400 == 0)

/-- The days of a month; none where there is no such month. -/
def daysInMonth (year : Int) : Nat → Nat
  | 1 => 31
  | 2 => if isLeapYear year then 29 else 28
  | 3 => 31
  | 4 => 30
  | 5 => 31
  | 6 => 30
  | 7 => 31
  | 8 => 31
  | 9 => 30
  | 10 => 31
  | 11 => 30
  | 12 => 31
  | _ => 0

/-- The days from 1 January of year 1 to 1 January of a year. -/
def daysBeforeYear (year : Int) : Int :=
  365 * (year - 1) + (year - 1) / 4 - (year - 1) / 100 + (year - 1) / 400

/-- The days of a year before a month. -/
def daysBeforeMonth (year : Int) : Nat → Nat
  | 0 => 0
  | month + 1 => daysBeforeMonth year month + daysInMonth year month

end Calendar

open Calendar

/-- A day of the calendar. -/
structure Date where
  year : Int
  month : Nat
  day : Nat
  year_bounds : -262143 ≤ year ∧ year ≤ 262142
  day_bounds : 1 ≤ day ∧ day ≤ daysInMonth year month
  deriving DecidableEq, Repr

namespace Date

/-- The day with these parts, if the calendar has it. -/
def ofParts? (year month day : Int) : Option Date :=
  if hy : -262143 ≤ year ∧ year ≤ 262142 then
    if hd : 1 ≤ day.toNat ∧ day.toNat ≤ daysInMonth year month.toNat then
      some ⟨year, month.toNat, day.toNat, hy, hd⟩
    else none
  else none

/-- The number of a day, where 1 January of year 1 has number 1. -/
def dayNumber (d : Date) : Int :=
  daysBeforeYear d.year + daysBeforeMonth d.year d.month + d.day

/-- The number of the first day of all. -/
def firstDayNumber : Int := daysBeforeYear (-262143) + 1

/-- The number of the last day of all. -/
def lastDayNumber : Int := daysBeforeYear 262143

/-- Years of up to four digits are padded to four; all others carry a sign. -/
def yearText (year : Int) : String :=
  if year < 0 then "-" ++ Decimal.padded 4 year.natAbs
  else if 9999 < year then "+" ++ Decimal.padded 4 year.natAbs
  else Decimal.padded 4 year.natAbs

/-- The text of a day: year, month and day, with dashes between them. -/
def text (d : Date) : String :=
  yearText d.year ++ "-" ++ Decimal.padded 2 d.month ++ "-" ++ Decimal.padded 2 d.day

end Date

end SqlScript
