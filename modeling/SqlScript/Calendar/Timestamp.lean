import SqlScript.Calendar.Date
import SqlScript.Calendar.TimeOfDay

/-!
# Date-times and time stamps

A date-time is a day and a time of day. A time stamp adds the offset of a time zone and so denotes
an instant: two time stamps agree when their instants do, whatever their offsets.
-/

namespace SqlScript

/-- A day and a time of day, in no particular time zone. -/
structure DateTime where
  date : Date
  time : TimeOfDay
  deriving DecidableEq, Repr

namespace DateTime

/-- The date-time with these parts, if there is one. -/
def ofParts? (year month day hour minute second nano : Int) : Option DateTime :=
  match Date.ofParts? year month day, TimeOfDay.ofParts? hour minute second nano with
  | some date, some time => some ⟨date, time⟩
  | _, _ => none

/-- The seconds from the day before 1 January of year 1 to a date-time. -/
def seconds (dt : DateTime) : Int :=
  dt.date.dayNumber * 86400 + dt.time.secondOfDay

/-- The text of a date-time: the day, a blank and the time. -/
def text (dt : DateTime) : String :=
  dt.date.text ++ " " ++ dt.time.text

end DateTime

/-- A date-time on the clocks of a time zone. -/
structure Timestamp where
  /-- What the clocks show. -/
  clock : DateTime
  /-- How many seconds the clocks are ahead of universal time. -/
  offset : Int
  offset_bounds : -86400 < offset ∧ offset < 86400
  /-- The day at the zero meridian is a day of the calendar. -/
  universal_day : Date.firstDayNumber ≤ (clock.seconds - offset) / 86400 ∧
    (clock.seconds - offset) / 86400 ≤ Date.lastDayNumber
  deriving DecidableEq, Repr

namespace Timestamp

/-- The time stamp with this clock time and offset, if there is one. -/
def ofClock? (clock : DateTime) (offset : Int) : Option Timestamp :=
  if ho : -86400 < offset ∧ offset < 86400 then
    if hd : Date.firstDayNumber ≤ (clock.seconds - offset) / 86400 ∧
        (clock.seconds - offset) / 86400 ≤ Date.lastDayNumber then
      some ⟨clock, offset, ho, hd⟩
    else none
  else none

/-- The instant of a time stamp: seconds of universal time, and nanoseconds. -/
def instant (ts : Timestamp) : Int × Nat :=
  (ts.clock.seconds - ts.offset, ts.clock.time.nano)

/-- An offset in hours and minutes, rounded to the nearest minute, half a minute away from
zero. -/
def offsetText (offset : Int) : String :=
  let minutes := (offset.natAbs + 30) / 60
  (if offset < 0 then "-" else "+") ++ Decimal.padded 2 (minutes / 60) ++ ":" ++
    Decimal.padded 2 (minutes % 60)

/-- The text of a time stamp: its clock time and its offset. -/
def text (ts : Timestamp) : String :=
  ts.clock.text ++ offsetText ts.offset

end Timestamp

end SqlScript
