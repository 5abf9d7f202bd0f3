import Blockflow.Number.Binary64

/-!
# Shortest decimals

The reals between the half-way points around a number read back as it, the half-way points only when
the significand is even. `shortest` tests, for 1, 2, … 17 digits, the two neighbours of the number
on that decimal grid. Of two hits the nearer wins, or the upper one.
-/

namespace Blockflow.Number

/-- The decimal `0.d₁d₂… * 10 ^ point`. -/
structure Decimal where
  digits : Nat
  point : Int
  deriving DecidableEq, Repr

/-- A fraction. -/
structure Ratio where
  num : Nat
  den : Nat
  deriving DecidableEq, Repr

namespace Ratio

/-- `value * 2 ^ exponent`. -/
def ofBinary (value : Nat) (exponent : Int) : Ratio :=
  if exponent < 0 then ⟨value, 1 <<< (-exponent).toNat⟩ else ⟨value <<< exponent.toNat, 1⟩

/-- `value * 10 ^ exponent`. -/
def ofDecimal (value : Nat) (exponent : Int) : Ratio :=
  if exponent < 0 then ⟨value, Nat.pow 10 (-exponent).toNat⟩ else
    ⟨value * Nat.pow 10 exponent.toNat, 1⟩

def le (a b : Ratio) : Bool := a.num * b.den ≤ b.num * a.den

def lt (a b : Ratio) : Bool := a.num * b.den < b.num * a.den

/-- The whole multiples of `10 ^ exponent` that fit into the fraction. -/
def floorAt (a : Ratio) (exponent : Int) : Nat :=
  if exponent < 0 then a.num * Nat.pow 10 (-exponent).toNat / a.den
  else a.num / (a.den * Nat.pow 10 exponent.toNat)

end Ratio

/-- The reals that read back as a given number. -/
structure Interval where
  low : Ratio
  high : Ratio
  closed : Bool

def Interval.contains (i : Interval) (r : Ratio) : Bool :=
  if i.closed then i.low.le r && r.le i.high else i.low.lt r && r.lt i.high

/-- The interval around a positive magnitude. The gap below a power of two is half as wide, except
at the smallest exponent. -/
def roundingInterval (value : Magnitude) : Interval :=
  let m := value.significand
  let unit := value.exponent - 2
  let below := if m == 1 <<< 52 && -1074 < value.exponent then 1 else 2
  { low := Ratio.ofBinary (4 * m - below) unit
    high := Ratio.ofBinary (4 * m + 2) unit
    closed := m % 2 == 0 }

/-- The exponent `p` with `10 ^ (p - 1) ≤ value < 10 ^ p`. -/
def decimalPoint (value : Magnitude) : Int :=
  let estimate := Int.fdiv ((value.exponent + value.significand.log2) * 30103) 100000
  let exact := Ratio.ofBinary value.significand value.exponent
  if (Ratio.ofDecimal 1 (estimate + 1)).le exact then estimate + 2 else estimate + 1

/-- The neighbours of a number on the grid of decimals with `count` digits that read back as it. -/
def candidate? (value : Magnitude) (point : Int) (count : Nat) : Option Nat :=
  let interval := roundingInterval value
  let exact := Ratio.ofBinary value.significand value.exponent
  let grid := point - count
  let below := exact.floorAt grid
  let lower := Ratio.ofDecimal below grid
  let upper := Ratio.ofDecimal (below + 1) grid
  match 0 < below && interval.contains lower, interval.contains upper with
  | true, false => some below
  | false, true => some (below + 1)
  | true, true =>
    -- `exact - lower < upper - exact`, doubled and cross-multiplied
    let middle := Ratio.ofDecimal (10 * below + 5) (grid - 1)
    some (if exact.lt middle then below else below + 1)
  | false, false => none

/-- The first digit count from `count` on whose grid has a hit. -/
def searchDigits (value : Magnitude) (point : Int) : Nat → Nat → Decimal
  | 0, count => ⟨(Ratio.ofBinary value.significand value.exponent).floorAt (point - count), point⟩
  | tries + 1, count =>
    match candidate? value point count with
    | some digits => ⟨digits, if digits == Nat.pow 10 count then point + 1 else point⟩
    | none => searchDigits value point tries (count + 1)

/-- The decimal with the fewest digits that reads back as the positive magnitude. -/
def shortest (value : Magnitude) : Decimal :=
  searchDigits value (decimalPoint value) 17 1

end Blockflow.Number
