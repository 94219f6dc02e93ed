/-!
# Rounding exact values

This file rounds exact rational values: to the nearest whole number, to the
nearest multiple of a power of ten, and to a given count of significant binary
digits.  A half always goes to the even neighbour, so no rounding is biased
upwards or downwards.
-/

namespace Schematic

namespace Number

/-- The whole number nearest to `value`; a half goes to the even neighbour. -/
def roundHalfEven (value : Rat) : Int :=
  let low := value.floor
  let rest := value - (low : Rat)
  if rest < 1 / 2 then low
  else if 1 / 2 < rest then low + 1
  else if low % 2 = 0 then low
  else low + 1

def magnitude (value : Rat) : Rat :=
  if value < 0 then -value else value

/-- The power `2 ^ exponent`, also for a negative exponent. -/
def twoPow (exponent : Int) : Rat :=
  if 0 ≤ exponent then (Nat.pow 2 exponent.toNat : Nat)
  else mkRat 1 (Nat.pow 2 (-exponent).toNat)

/-- The whole number nearest to `value * 10 ^ places`. -/
def scaledRound (places : Nat) (value : Rat) : Int :=
  roundHalfEven (value * (Nat.pow 10 places : Rat))

/-- The decimal with `places` places nearest to `value`. -/
def roundToPlaces (places : Nat) (value : Rat) : Rat :=
  (scaledRound places value : Rat) / (Nat.pow 10 places : Rat)

/-- The exponent of the unit in the last of fifty-three binary digits of
`value`, for a positive `value`. -/
def binaryUnit (value : Rat) : Int :=
  let guess : Int := (value.num.natAbs.log2 : Int) - (value.den.log2 : Int)
  if value < twoPow guess then guess - 53 else guess - 52

/-- The value of fifty-three significant binary digits nearest to `value`.
This is the rounding of double precision without its limits on the exponent. -/
def roundBinary (value : Rat) : Rat :=
  if value = 0 then 0
  else
    let unit := twoPow (binaryUnit (magnitude value))
    (roundHalfEven (value / unit) : Rat) * unit

end Number

end Schematic
