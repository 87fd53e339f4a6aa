import SqlScript.Decimal.Digits

/-!
# The fewest digits that single out a number

A number is known up to an interval: every decimal inside is read back as that number. Among all
decimals `d · 10 ^ e` inside the interval, `Interval.shortest` takes one on the coarsest grid, and
of two on that grid the nearer one; a tie goes up. If any point of a grid lies in the interval, so
does one of the two neighbours of the number on that grid, so only these are tried.
-/

namespace SqlScript.Decimal

/-- A positive number and the interval around it, as fractions over one denominator `2 ^ scale`. -/
structure Interval where
  low : Nat
  value : Nat
  high : Nat
  scale : Nat
  /-- Whether the two ends belong to the interval. -/
  closed : Bool
  deriving Repr

namespace Interval

/-- The size of one step of the grid `10 ^ e`, in units of `stretch`. -/
def step (i : Interval) (e : Int) : Nat :=
  Nat.pow 2 i.scale * Nat.pow 10 e.toNat

/-- A numerator in units in which grids below the point have whole steps too. -/
def stretch (e : Int) (numerator : Nat) : Nat :=
  numerator * Nat.pow 10 (-e).toNat

/-- Whether `d · 10 ^ e` lies in the interval. -/
def holds (i : Interval) (e : Int) (d : Nat) : Bool :=
  let point := d * i.step e
  let low := stretch e i.low
  let high := stretch e i.high
  if i.closed then decide (low ≤ point) && decide (point ≤ high)
  else decide (low < point) && decide (point < high)

/-- The neighbour of the number on the grid `10 ^ e` that lies in the interval, and of two the
nearer one. -/
def neighbour? (i : Interval) (e : Int) : Option Nat :=
  let value := stretch e i.value
  let below := value / i.step e
  match i.holds e below, i.holds e (below + 1) with
  | true, true => some (if 2 * (value % i.step e) < i.step e then below else below + 1)
  | true, false => some below
  | false, true => some (below + 1)
  | false, false => none

/-- Tries grid after grid, each ten times finer than the one before, and ends on the grid on which
every number of the denominator is exact. -/
def search (i : Interval) : Nat → Int → Nat × Int
  | 0, e => (stretch e i.value / i.step e, e)
  | n + 1, e =>
    match i.neighbour? e with
    | some d => (d, e)
    | none => i.search n (e - 1)

/-- The shortest decimal of the interval, as digits and an exponent of ten. -/
def shortest (i : Interval) : Nat × Int :=
  let magnitude := (digits (i.high / Nat.pow 2 i.scale)).length
  i.search (magnitude + i.scale) magnitude

end Interval

/-- The digits of `d · 10 ^ e` without an exponent: zeros behind them, or a point among them with a
digit on each side. -/
def positional (d : Nat) (e : Int) : List Char :=
  if 0 ≤ e then digits d ++ List.replicate e.toNat '0'
  else
    let places := (-e).toNat
    let all := paddedDigits (places + 1) d
    all.take (all.length - places) ++ '.' :: all.drop (all.length - places)

end SqlScript.Decimal
