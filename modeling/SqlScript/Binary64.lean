import SqlScript.Decimal.Shortest

/-!
# Binary floating-point numbers

A number of 64 bits: a sign, eleven bits of exponent and 52 bits of significand. It is kept as its
bits, so that nothing about it is left to the machine's arithmetic. The finite number with
significand `m` and exponent `q` has the value `m · 2 ^ q`.
-/

namespace SqlScript

/-- A binary floating-point number of 64 bits. -/
structure Binary64 where
  bits : UInt64
  deriving DecidableEq, Repr

namespace Binary64

/-- The bit in front of the significand field, which every normal number has. -/
def leadingBit : Nat := 4503599627370496

/-- The bit that says that a number is negative. -/
def signBit : Nat := 9223372036854775808

/-- Whether the sign bit is set. -/
def isNegative (x : Binary64) : Bool :=
  decide (signBit ≤ x.bits.toNat)

/-- The exponent field. -/
def exponentField (x : Binary64) : Nat :=
  x.bits.toNat / leadingBit % 2048

/-- The significand field. -/
def significandField (x : Binary64) : Nat :=
  x.bits.toNat % leadingBit

/-- Whether the number is finite. -/
def isFinite (x : Binary64) : Bool :=
  x.exponentField != 2047

/-- Whether the bits stand for no number at all. -/
def isNaN (x : Binary64) : Bool :=
  x.exponentField == 2047 && x.significandField != 0

/-- Whether the number is zero, of either sign. -/
def isZero (x : Binary64) : Bool :=
  x.exponentField == 0 && x.significandField == 0

/-- The whole significand: normal numbers have one more bit in front. -/
def significand (x : Binary64) : Nat :=
  if x.exponentField = 0 then x.significandField else leadingBit + x.significandField

/-- The exponent of two that goes with the whole significand. -/
def exponent (x : Binary64) : Int :=
  if x.exponentField = 0 then -1074 else (x.exponentField : Int) - 1075

/-- Whether the next smaller number is only half as far away as the next larger one. -/
def isBinadeStart (x : Binary64) : Bool :=
  x.significandField == 0 && decide (1 < x.exponentField)

/-- Numerical equality: the two zeros are equal, and what is no number equals nothing. -/
def agrees (x y : Binary64) : Bool :=
  !x.isNaN && !y.isNaN && (x == y || x.isZero && y.isZero)

/-- The decimals that read back as a finite number: up to half way to its neighbours, and with
these points themselves if the significand is even. -/
def roundingInterval (x : Binary64) : Decimal.Interval :=
  let q := x.exponent - 2
  let factor := Nat.pow 2 q.toNat
  { low := (4 * x.significand - (if x.isBinadeStart then 1 else 2)) * factor
    value := 4 * x.significand * factor
    high := (4 * x.significand + 2) * factor
    scale := (-q).toNat
    closed := x.significand % 2 == 0 }

/-- The digits of the size of a finite number, the fewest that read back as it. -/
def magnitudeDigits (x : Binary64) : List Char :=
  if x.isZero then ['0']
  else
    let (d, e) := x.roundingInterval.shortest
    Decimal.positional d e

/-- The digits of a finite number always show a point. -/
def withPoint (cs : List Char) : List Char :=
  if cs.contains '.' then cs else cs ++ ['.', '0']

/-- The text of a number: never with an exponent, and with a point wherever it is finite. -/
def text (x : Binary64) : String :=
  if x.isNaN then "NaN"
  else
    (if x.isNegative then "-" else "") ++
      (if x.isFinite then String.ofList (withPoint x.magnitudeDigits) else "inf")

end Binary64

end SqlScript
