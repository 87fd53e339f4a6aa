import SqlScript.Decimal.Digits

/-!
# Times of day

A time of day counts nanoseconds within its second. A second may be followed by a leap second, which
is counted as up to another 10⁹ nanoseconds of it and written as the next second. Leap seconds come
at the end of a minute of universal time, where the next second is number 60; clocks that are ahead
by other than whole minutes show them behind other seconds.
-/

namespace SqlScript

/-- A time of day. -/
structure TimeOfDay where
  hour : Nat
  minute : Nat
  second : Nat
  nano : Nat
  hour_lt : hour < 24
  minute_lt : minute < 60
  second_lt : second < 60
  nano_lt : nano < 2000000000
  deriving DecidableEq, Repr

namespace TimeOfDay

/-- Whether a leap second, if this is one, is at the end of a minute. -/
def isRegular (t : TimeOfDay) : Bool :=
  decide (t.nano < 1000000000) || t.second == 59

/-- The regular time with these parts, if there is one. -/
def ofParts? (hour minute second nano : Int) : Option TimeOfDay :=
  if 0 ≤ hour ∧ 0 ≤ minute ∧ 0 ≤ second ∧ 0 ≤ nano then
    if h : hour.toNat < 24 ∧ minute.toNat < 60 ∧ second.toNat < 60 ∧ nano.toNat < 2000000000 then
      let t : TimeOfDay :=
        ⟨hour.toNat, minute.toNat, second.toNat, nano.toNat, h.1, h.2.1, h.2.2.1, h.2.2.2⟩
      if t.isRegular then some t else none
    else none
  else none

/-- The seconds since midnight; a leap second counts as the second before it. -/
def secondOfDay (t : TimeOfDay) : Nat :=
  t.hour * 3600 + t.minute * 60 + t.second

/-- The second as written, one more for a leap second. -/
def writtenSecond (t : TimeOfDay) : Nat :=
  if t.nano < 1000000000 then t.second else t.second + 1

/-- The nanoseconds as written, within the written second. -/
def writtenNano (t : TimeOfDay) : Nat :=
  if t.nano < 1000000000 then t.nano else t.nano - 1000000000

/-- A fraction of a second: a point and 3, 6 or 9 digits, the fewest that are exact, or nothing
for a whole second. -/
def fractionText (nano : Nat) : String :=
  if nano = 0 then ""
  else if nano % 1000000 = 0 then "." ++ Decimal.padded 3 (nano / 1000000)
  else if nano % 1000 = 0 then "." ++ Decimal.padded 6 (nano / 1000)
  else "." ++ Decimal.padded 9 nano

/-- The text of a time: hour, minute and second with colons between them, and the fraction. -/
def text (t : TimeOfDay) : String :=
  Decimal.padded 2 t.hour ++ ":" ++ Decimal.padded 2 t.minute ++ ":" ++
    Decimal.padded 2 t.writtenSecond ++ fractionText t.writtenNano

end TimeOfDay

end SqlScript
