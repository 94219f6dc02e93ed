import Schematic.Number.Rounding

/-!
# Exact values of double-precision numbers

A double-precision number is a sign, a whole significand and a power of two.
This file reads these parts from the bits of a number, so that texts and
roundings can be computed exactly, and rounds a number to decimal places by
rounding its exact value once and converting the decimal back once.
-/

namespace Schematic

namespace Number

/-- What the bits of a double-precision number say. -/
inductive Binary64 where
  /-- The value `± significand * 2 ^ exponent`. -/
  | finite (negative : Bool) (significand : Nat) (exponent : Int)
  /-- One of the two infinities. -/
  | infinite (negative : Bool)
  /-- The result of an operation without a value. -/
  | undefined
deriving DecidableEq, Repr

namespace Binary64

def leastExponent : Int := -1074

/-- The value of the leading bit of a significand, which is not among the bits of
the number. -/
def hiddenBit : Nat := 4503599627370496

/-- Reads the parts of a number from its sixty-four bits. -/
def ofBits (bits : Nat) : Binary64 :=
  let negative : Bool := bits / (2048 * hiddenBit) % 2 == 1
  let field : Nat := bits / hiddenBit % 2048
  let fraction : Nat := bits % hiddenBit
  if field = 2047 then
    if fraction = 0 then .infinite negative else .undefined
  else if field = 0 then
    .finite negative fraction leastExponent
  else
    .finite negative (fraction + hiddenBit) ((field : Int) - 1075)

def ofFloat (number : Float) : Binary64 :=
  ofBits number.toBits.toNat

def value? : Binary64 → Option Rat
  | .finite negative significand exponent =>
      let size := (significand : Rat) * twoPow exponent
      some (if negative then -size else size)
  | .infinite _ => none
  | .undefined => none

end Binary64

/-- Rounds a number to decimal places: its exact value goes to the nearest
decimal, and that decimal to the nearest number.  The sign is kept, also that
of a zero; infinities and undefined values stay as they are. -/
def roundFloat (places : Nat) (number : Float) : Float :=
  match Binary64.ofFloat number with
  | .finite negative significand exponent =>
      let scaled := scaledRound places ((significand : Rat) * twoPow exponent)
      let rounded := Float.ofScientific scaled.toNat true places
      if negative then -rounded else rounded
  | _ => number

end Number

end Schematic
