import Schematic.Number.Binary64

/-!
# Shortest decimals

A double-precision number stands for every real value nearer to it than to its
neighbours.  This file finds the decimal with the fewest digits in that
interval; of two such decimals it takes the one nearer to the number, and of
two equally near ones the even one.
-/

namespace Schematic

namespace Number

/-- The value `digits * 10 ^ exponent`. -/
structure Decimal where
  /-- The significant digits, read as a whole number. -/
  digits : Nat
  /-- The power of ten of the last digit. -/
  exponent : Int
deriving DecidableEq, Repr

namespace Decimal

/-- The digits of a whole number, the leading one first. -/
def digitsOf (number : Nat) : List Char :=
  Nat.toDigits 10 number

/-- Moves zeros at the end of the digits into the exponent; at most `steps` of
them, which is enough when `steps` is the number of digits. -/
def normalizeFrom : Nat → Decimal → Decimal
  | 0, decimal => decimal
  | steps + 1, decimal =>
      if decimal.digits ≠ 0 ∧ decimal.digits % 10 = 0 then
        normalizeFrom steps ⟨decimal.digits / 10, decimal.exponent + 1⟩
      else decimal

/-- The same value with no zero at the end of its digits. -/
def normalize (decimal : Decimal) : Decimal :=
  normalizeFrom (digitsOf decimal.digits).length decimal

end Decimal

/-- The power of ten of the leading digit of `numerator / denominator`, for a
positive fraction. -/
def leadingExponent (numerator denominator : Nat) : Int :=
  if denominator ≤ numerator then
    ((Decimal.digitsOf (numerator / denominator)).length : Int) - 1
  else
    let ceiling := (denominator + numerator - 1) / numerator
    Int.neg (Decimal.digitsOf (ceiling - 1)).length

/-- A positive value with the open interval of the reals that round to it; the
three numerators share one denominator. -/
structure RoundingInterval where
  low : Nat
  middle : Nat
  high : Nat
  /-- The common denominator. -/
  denominator : Nat
  /-- Whether the two ends round to the value as well. -/
  closed : Bool

namespace RoundingInterval

/-- The interval of `significand * 2 ^ exponent`.  Below a power of two the
neighbour is only half as far away, unless the exponent is the least one. -/
def ofParts (significand : Nat) (exponent : Int) : RoundingInterval :=
  let below :=
    if significand = Binary64.hiddenBit ∧ Binary64.leastExponent < exponent then 1 else 2
  let up := Nat.pow 2 (exponent - 2).toNat
  let down := Nat.pow 2 (2 - exponent).toNat
  { low := (4 * significand - below) * up
    middle := 4 * significand * up
    high := (4 * significand + 2) * up
    denominator := down
    closed := significand % 2 == 0 }

/-- Whether `count * unit` lies in the interval, where the unit is
`unitNumerator / unitDenominator`. -/
def contains (interval : RoundingInterval) (unitNumerator unitDenominator : Nat)
    (count : Nat) : Bool :=
  let point := count * unitNumerator * interval.denominator
  let low := interval.low * unitDenominator
  let high := interval.high * unitDenominator
  if interval.closed then low ≤ point && point ≤ high
  else low < point && point < high

/-- The best multiple of `10 ^ exponent` in the interval, if there is one.  It
is one of the two neighbours of the value on that grid. -/
def onGrid? (interval : RoundingInterval) (exponent : Int) : Option Decimal :=
  let unitNumerator := Nat.pow 10 exponent.toNat
  let unitDenominator := Nat.pow 10 (-exponent).toNat
  let whole := interval.middle * unitDenominator
  let step := interval.denominator * unitNumerator
  let below := whole / step
  let rest := whole % step
  let nearer :=
    if 2 * rest < step then below
    else if step < 2 * rest then below + 1
    else if below % 2 = 0 then below
    else below + 1
  let farther := if nearer = below then below + 1 else below
  if interval.contains unitNumerator unitDenominator nearer then
    some ⟨nearer, exponent⟩
  else if interval.contains unitNumerator unitDenominator farther then
    some ⟨farther, exponent⟩
  else none

end RoundingInterval

/-- The decimal with the fewest digits that reads back as the positive number
`significand * 2 ^ exponent`.  Seventeen digits are always enough. -/
def shortest (significand : Nat) (exponent : Int) : Decimal :=
  let interval := RoundingInterval.ofParts significand exponent
  let leading := leadingExponent interval.middle interval.denominator
  let grids := (List.range 17).map fun extra : Nat => leading - (extra : Int)
  ((grids.findSome? interval.onGrid?).getD
    ⟨significand, exponent⟩).normalize

end Number

end Schematic
