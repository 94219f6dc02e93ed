import Schematic.Number.Binary64

/-!
# Scalars

Coordinates of a drawing are computed in double precision, and the laws of a
drawing are laws of exact arithmetic.  A `Scalar` is a type that has the few
operations which the geometry needs; double-precision numbers and exact
rationals are its two instances, and every geometric definition works for
both.
-/

namespace Schematic

/-- The operations that the geometry of a drawing is built from. -/
class Scalar (α : Type) extends
    Add α, Sub α, Mul α, Div α, Neg α, LT α, LE α, BEq α where
  ofNat : Nat → α
  abs : α → α
  /-- The nearest decimal with the given number of places. -/
  roundTo : Nat → α → α
  decideLT : DecidableLT α
  decideLE : DecidableLE α

namespace Scalar

variable {α : Type} [Scalar α]

instance : DecidableLT α := Scalar.decideLT

instance : DecidableLE α := Scalar.decideLE

def zero : α := ofNat 0

/-- The decimal fraction `tenths / 10`. -/
def tenths (count : Nat) : α := ofNat count / ofNat 10

def half (value : α) : α := value / ofNat 2

/-- The larger of two scalars, the first one if they are equal. -/
def larger (first second : α) : α :=
  if first < second then second else first

/-- The smaller of two scalars, the first one if they are equal. -/
def smaller (first second : α) : α :=
  if second < first then second else first

def largest (first : α) (rest : List α) : α :=
  rest.foldl larger first

def smallest (first : α) (rest : List α) : α :=
  rest.foldl smaller first

/-- The largest member, or a value of its own for an empty sequence. -/
def largestOr (fallback : α) : List α → α
  | [] => fallback
  | first :: rest => largest first rest

/-- The sum of a sequence, added up from its start. -/
def sum (values : List α) : α :=
  values.foldl (· + ·) zero

/-- How far apart two coordinates may be and still count as the same. -/
def tolerance : α := ofNat 1 / ofNat 1000000000

/-- Whether two coordinates are the same up to the tolerance. -/
def same (first second : α) : Bool :=
  first == second || decide (abs (second - first) ≤ tolerance)

end Scalar

instance : Scalar Float where
  ofNat := Float.ofNat
  abs := Float.abs
  roundTo := Number.roundFloat
  decideLT := inferInstance
  decideLE := inferInstance

instance : Scalar Rat where
  ofNat count := count
  abs := Number.magnitude
  roundTo := Number.roundToPlaces
  decideLT := inferInstance
  decideLE := inferInstance

end Schematic
