import Mathlib.Data.List.Forall2
import Schematic.Proofs.Number.Halves

/-!
# Numbers on a scale

A computation in whole units keeps its numbers small: the sum of two numbers of
so many units has no more units than both together.  As long as the units fit
into double precision, such a computation gives in double precision what it
gives in exact arithmetic.
-/

namespace Schematic

namespace Number

/-- The number holds exactly the whole number, which is at most as large as the limit. -/
structure HoldsWhole (limit : Rat) (number : Float) (value : Rat) : Prop where
  exact : IsExactly number value
  whole : value ∈ wholes
  within : |value| ≤ limit

/-- A unit of length, and a number of units up to which double precision holds all
multiples of one half. -/
structure Scale where
  unit : Rat
  room : Nat
  one_le_unit : 1 ≤ unit
  fits : room * unit < 2 ^ 52

namespace Scale

/-- The number holds exactly the value, which is a multiple of one half and has at
most `count` units. -/
structure Holds (scale : Scale) (count : Nat) (number : Float) (value : Rat) : Prop where
  exact : IsExactly number value
  half : value ∈ halves
  within : |value| ≤ count * scale.unit

variable {scale : Scale} {count more : Nat} {number : Float} {value : Rat}

theorem below_of_within (room : count ≤ scale.room) (within : |value| ≤ count * scale.unit) :
    |value| < 2 ^ 52 := by
  have nonneg : 0 ≤ scale.unit := zero_le_one.trans scale.one_le_unit
  calc |value| ≤ count * scale.unit := within
    _ ≤ scale.room * scale.unit := mul_le_mul_of_nonneg_right (Nat.cast_le.mpr room) nonneg
    _ < 2 ^ 52 := scale.fits

theorem Holds.holdsHalf (holds : scale.Holds count number value) (room : count ≤ scale.room) :
    HoldsHalf number value :=
  ⟨holds.exact, holds.half, below_of_within room holds.within⟩

/-- What is held of a value is held of its size as well, if that is known better. -/
theorem Holds.of_within (holds : scale.Holds count number value)
    (within : |value| ≤ more * scale.unit) : scale.Holds more number value :=
  ⟨holds.exact, holds.half, within⟩

theorem Holds.mono (holds : scale.Holds count number value) (atMost : count ≤ more) :
    scale.Holds more number value :=
  holds.of_within <| holds.within.trans <|
    mul_le_mul_of_nonneg_right (Nat.cast_le.mpr atMost) (zero_le_one.trans scale.one_le_unit)

theorem holds_zero (scale : Scale) (count : Nat) : scale.Holds count Scalar.zero Scalar.zero := by
  have zero : HoldsHalf (Scalar.ofNat 0) (0 : Nat) := holdsHalf_ofNat (by norm_num)
  refine ⟨zero.exact, zero.half, ?_⟩
  rw [Scalar.zero_eq, abs_zero]
  exact mul_nonneg count.cast_nonneg (zero_le_one.trans scale.one_le_unit)

theorem holds_ofNat (below : count < 2 ^ 52) (small : (count : Rat) ≤ scale.unit) :
    scale.Holds 1 (Scalar.ofNat count) (Scalar.ofNat count) := by
  have whole := holdsHalf_ofNat below
  refine ⟨whole.exact, whole.half, ?_⟩
  rwa [Scalar.ofNat_eq, Nat.abs_cast, Nat.cast_one, one_mul]

theorem holds_of_whole (holds : HoldsWhole scale.unit number value) :
    scale.Holds 1 number value := by
  refine ⟨holds.exact, mem_halves_of_mem_wholes holds.whole, ?_⟩
  rw [Nat.cast_one, one_mul]
  exact holds.within

theorem lt_of_le_room (room : count ≤ scale.room) : count < 2 ^ 52 := by
  have atMost : (count : Rat) < (2 ^ 52 : Nat) :=
    calc (count : Rat) ≤ scale.room := Nat.cast_le.mpr room
      _ ≤ scale.room * scale.unit := le_mul_of_one_le_right (Nat.cast_nonneg _) scale.one_le_unit
      _ < (2 ^ 52 : Nat) := scale.fits.trans_eq (by norm_num)
  exact Nat.cast_lt.mp atMost

section

variable {first second : Float} {firstValue secondValue : Rat} {firstCount secondCount : Nat}
  (firstHolds : scale.Holds firstCount first firstValue)
  (secondHolds : scale.Holds secondCount second secondValue)

include firstHolds secondHolds

theorem Holds.add (room : firstCount + secondCount ≤ scale.room) :
    scale.Holds (firstCount + secondCount) (first + second) (firstValue + secondValue) := by
  have within : |firstValue + secondValue| ≤
      ((firstCount + secondCount : Nat) : Rat) * scale.unit := by
    rw [Nat.cast_add, add_mul]
    exact (abs_add_le _ _).trans (add_le_add firstHolds.within secondHolds.within)
  have sum := (firstHolds.holdsHalf (by omega)).add (secondHolds.holdsHalf (by omega))
    (below_of_within room within)
  exact ⟨sum.exact, sum.half, within⟩

theorem Holds.sub (room : firstCount + secondCount ≤ scale.room) :
    scale.Holds (firstCount + secondCount) (first - second) (firstValue - secondValue) := by
  have within : |firstValue - secondValue| ≤
      ((firstCount + secondCount : Nat) : Rat) * scale.unit := by
    rw [Nat.cast_add, add_mul]
    exact (abs_sub _ _).trans (add_le_add firstHolds.within secondHolds.within)
  have difference := (firstHolds.holdsHalf (by omega)).sub (secondHolds.holdsHalf (by omega))
    (below_of_within room within)
  exact ⟨difference.exact, difference.half, within⟩

theorem Holds.beq_eq : (first == second) = (firstValue == secondValue) := by
  rw [Bool.eq_iff_iff, firstHolds.exact.beq_iff secondHolds.exact, beq_iff_eq]

end

theorem Holds.larger {first second : Float} {firstValue secondValue : Rat}
    (firstHolds : scale.Holds count first firstValue)
    (secondHolds : scale.Holds count second secondValue) :
    scale.Holds count (Scalar.larger first second) (Scalar.larger firstValue secondValue) :=
  larger_related (firstHolds.exact.lt_iff secondHolds.exact) firstHolds secondHolds

theorem Holds.scalar_half (holds : scale.Holds (2 * count) number value) (whole : value ∈ wholes)
    (room : 2 * count ≤ scale.room) :
    scale.Holds count (Scalar.half number) (Scalar.half value) := by
  have half := (holds.holdsHalf room).scalar_half whole
  refine ⟨half.exact, half.half, ?_⟩
  have within := holds.within
  rw [Scalar.half_eq, abs_div, abs_two, div_le_iff₀ two_pos]
  push_cast at within
  linarith

/-- Several times a whole number. -/
theorem Holds.mul_ofNat (holds : scale.Holds 1 number value) (whole : value ∈ wholes)
    (room : count ≤ scale.room) (positive : 1 ≤ scale.room) :
    scale.Holds count (number * Scalar.ofNat count) (value * Scalar.ofNat count) := by
  have within : |value * (count : Rat)| ≤ count * scale.unit := by
    have single := holds.within
    rw [Nat.cast_one, one_mul] at single
    rw [abs_mul, Nat.abs_cast, mul_comm]
    exact mul_le_mul_of_nonneg_left single count.cast_nonneg
  have product := (holds.holdsHalf positive).mul (holdsHalf_ofNat (lt_of_le_room room)) whole
    (natCast_mem_wholes count) (below_of_within room within)
  exact ⟨product.exact, product.half, within⟩

/-! ## Sequences -/

theorem largest_holds {first : Float} {rest : List Float} {firstValue : Rat} {values : List Rat}
    (firstHolds : scale.Holds count first firstValue)
    (restHolds : List.Forall₂ (scale.Holds count) rest values) :
    scale.Holds count (Scalar.largest first rest) (Scalar.largest firstValue values) :=
  List.rel_foldl (fun _ _ largest _ _ holds => largest.larger holds) firstHolds restHolds

theorem largestOr_holds {numbers : List Float} {values : List Rat}
    (holds : List.Forall₂ (scale.Holds count) numbers values) :
    scale.Holds count (Scalar.largestOr Scalar.zero numbers)
      (Scalar.largestOr Scalar.zero values) := by
  cases holds with
  | nil => exact scale.holds_zero count
  | cons first rest => exact largest_holds first rest

/-- Numbers with counts of their own are added up. -/
theorem sum_holds {β : Type} {numbers : List Float} {members : List β} {size : β → Rat}
    {units : β → Nat}
    (holds : List.Forall₂ (fun number member => scale.Holds (units member) number (size member))
      numbers members)
    (room : (members.map units).sum ≤ scale.room) :
    scale.Holds (members.map units).sum (Scalar.sum numbers)
      (Scalar.sum (members.map size)) := by
  have added : ∀ start number value, scale.Holds start number value →
      start + (members.map units).sum ≤ scale.room →
      scale.Holds (start + (members.map units).sum) (numbers.foldl (· + ·) number)
        ((members.map size).foldl (· + ·) value) := by
    clear room
    induction holds with
    | nil => exact fun start number value startHolds _ => startHolds
    | @cons number member numbers members first rest ih =>
        intro start total exactTotal startHolds room
        rw [List.map_cons, List.sum_cons, ← add_assoc] at room ⊢
        exact ih _ _ _ (startHolds.add first (by omega)) room
  rw [← Nat.zero_add (members.map units).sum] at room ⊢
  exact added 0 _ _ (scale.holds_zero 0) room

end Scale

end Number

end Schematic
