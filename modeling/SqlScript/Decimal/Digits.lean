/-!
# Decimal digits of natural numbers and integers

Every number that reaches the output is written here: plainly, or padded with zeros to a least
width.
-/

namespace SqlScript.Decimal

/-- The character of one decimal digit. -/
def digitChar (d : Nat) : Char :=
  Char.ofNat ('0'.toNat + d)

/-- The decimal digits of a number, most significant first; zero has one digit. -/
def digits (n : Nat) : List Char :=
  if n < 10 then [digitChar n] else digits (n / 10) ++ [digitChar (n % 10)]
termination_by n

/-- The digits of a number, with zeros in front up to a least width. -/
def paddedDigits (width n : Nat) : List Char :=
  List.replicate (width - (digits n).length) '0' ++ digits n

/-- The decimal text of a natural number. -/
def ofNat (n : Nat) : String :=
  String.ofList (digits n)

/-- The decimal text of a natural number, with zeros in front up to a least width. -/
def padded (width n : Nat) : String :=
  String.ofList (paddedDigits width n)

/-- The decimal text of an integer, with a sign only below zero. -/
def ofInt (n : Int) : String :=
  if n < 0 then "-" ++ ofNat n.natAbs else ofNat n.natAbs

end SqlScript.Decimal
