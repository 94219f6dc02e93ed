import Mathlib
import Schematic.Number.Binary64

/-!
# Canonical significands

A finite double-precision number has many forms as a whole significand and a
power of two, and its bits hold one of them: a significand of exactly
fifty-three digits, or a shorter one at the least exponent.  This file proves
that rounding finds this form whenever there is one, without a change of the
value.
-/

namespace Schematic

namespace Number

open Float.Model Float.Model.UnpackedFloat

/-- Double precision. -/
abbrev binary64 : Float.Model.Format :=
  Format.binary64

/-- The value of a significand at an exponent. -/
def dyadic (significand : Nat) (exponent : Int) : Rat :=
  (significand : Rat) * 2 ^ exponent

/-- The form in which the bits of a number hold its significand and exponent. -/
structure IsCanonical (significand : Nat) (exponent : Int) : Prop where
  positive : 0 < significand
  below : significand < 2 ^ 53
  least : -1074 ≤ exponent
  full : 2 ^ 52 ≤ significand ∨ exponent = -1074

/-! ## Powers of two -/

theorem twoPow_eq (exponent : Int) : twoPow exponent = (2 : Rat) ^ exponent := by
  unfold twoPow
  split
  · next nonnegative =>
    obtain ⟨count, rfl⟩ := Int.eq_ofNat_of_zero_le nonnegative
    simp
  · next negative =>
    obtain ⟨count, same⟩ := Int.eq_ofNat_of_zero_le (by omega : 0 ≤ -exponent)
    obtain rfl : exponent = -(count : Int) := by omega
    rw [neg_neg, Int.toNat_natCast, Rat.mkRat_eq_div]
    simp

theorem twoPow_pos (exponent : Int) : 0 < twoPow exponent := by
  rw [twoPow_eq]
  exact zpow_pos two_pos exponent

theorem dyadic_shift (significand count : Nat) (exponent : Int) :
    dyadic (significand * 2 ^ count) (exponent - count) = dyadic significand exponent := by
  have split : (2 : Rat) ^ exponent = 2 ^ count * 2 ^ (exponent - count) := by
    rw [← zpow_natCast, ← zpow_add₀ (by norm_num)]
    congr 1
    omega
  rw [dyadic, dyadic, split]
  push_cast
  ring

theorem dyadic_pos {significand : Nat} (positive : 0 < significand) (exponent : Int) :
    0 < dyadic significand exponent :=
  mul_pos (Nat.cast_pos.mpr positive) (zpow_pos (by norm_num) exponent)

theorem dyadic_inj {first second : Nat} {exponent : Int} :
    dyadic first exponent = dyadic second exponent ↔ first = second := by
  have nonzero : (2 : Rat) ^ exponent ≠ 0 := (zpow_pos (by norm_num) exponent).ne'
  rw [dyadic, dyadic, mul_left_inj' nonzero, Nat.cast_inj]

/-- Of two forms of one value, the one with the smaller exponent is a shift of
the other one. -/
theorem eq_shift_of_dyadic_eq {first second : Nat} {low high : Int} (ordered : low ≤ high)
    (same : dyadic first low = dyadic second high) : first = second * 2 ^ (high - low).toNat := by
  have shifted := dyadic_shift second (high - low).toNat high
  rw [show high - ((high - low).toNat : Int) = low by omega, ← same] at shifted
  exact (dyadic_inj.mp shifted).symm

/-! ## The exponent that rounding aims at -/

theorem log2_shift {significand : Nat} (positive : 0 < significand) (count : Nat) :
    (significand * 2 ^ count).log2 = significand.log2 + count := by
  rw [Nat.log2_eq_iff (Nat.mul_pos positive (Nat.two_pow_pos count)).ne']
  constructor
  · rw [pow_add]
    exact Nat.mul_le_mul_right _ (Nat.log2_self_le positive.ne')
  · rw [add_right_comm, pow_add]
    exact Nat.mul_lt_mul_of_pos_right Nat.lt_log2_self (Nat.two_pow_pos count)

theorem totalExponent_shift {significand : Nat} (positive : 0 < significand) (count : Nat)
    (exponent : Int) :
    totalExponent (significand * 2 ^ count) (exponent - count) =
      totalExponent significand exponent := by
  rw [totalExponent, totalExponent, log2_shift positive]
  push_cast
  ring

theorem totalExponent_congr {first second : Nat} {firstExponent secondExponent : Int}
    (firstPos : 0 < first) (secondPos : 0 < second)
    (same : dyadic first firstExponent = dyadic second secondExponent) :
    totalExponent first firstExponent = totalExponent second secondExponent := by
  wlog ordered : firstExponent ≤ secondExponent generalizing first second firstExponent
      secondExponent
  · exact (this secondPos firstPos same.symm (by omega)).symm
  rw [eq_shift_of_dyadic_eq ordered same, ← totalExponent_shift secondPos
    (secondExponent - firstExponent).toNat secondExponent]
  congr 1
  omega

theorem targetExponent_eq (total : Int) :
    binary64.targetExponent total = max (total - 53) (-1074) :=
  rfl

theorem IsCanonical.log2 {significand : Nat} {exponent : Int}
    (canonical : IsCanonical significand exponent) :
    significand.log2 = 52 ∨ significand.log2 < 52 ∧ exponent = -1074 := by
  have short : significand.log2 < 53 := (Nat.log2_lt canonical.positive.ne').mpr canonical.below
  rcases canonical.full with long | least
  · have full : 52 ≤ significand.log2 := (Nat.le_log2 canonical.positive.ne').mpr long
    omega
  · omega

/-- Rounding aims at the exponent of the canonical form. -/
theorem IsCanonical.targetExponent {significand : Nat} {exponent : Int}
    (canonical : IsCanonical significand exponent) :
    binary64.targetExponent (totalExponent significand exponent) = exponent := by
  have least := canonical.least
  have digits := canonical.log2
  rw [targetExponent_eq, totalExponent]
  omega

/-- A short significand is made longer, until it has all its digits or its
exponent is the least one. -/
theorem exists_canonical {significand : Nat} {exponent : Int} (positive : 0 < significand)
    (below : significand < 2 ^ 53) (least : -1074 ≤ exponent) :
    ∃ count : Nat, IsCanonical (significand * 2 ^ count) (exponent - count) := by
  have short : significand.log2 < 53 := (Nat.log2_lt positive.ne').mpr below
  refine ⟨min (52 - significand.log2) (exponent + 1074).toNat, ?_⟩
  generalize same : min (52 - significand.log2) (exponent + 1074).toNat = count
  have digits := log2_shift positive count
  have longer : 0 < significand * 2 ^ count := Nat.mul_pos positive (Nat.two_pow_pos count)
  refine ⟨longer, (Nat.log2_lt longer.ne').mp (by omega), by omega, ?_⟩
  rcases le_total (52 - significand.log2) (exponent + 1074).toNat with full | isLeast
  · exact .inl ((Nat.le_log2 longer.ne').mp (by omega))
  · exact .inr (by omega)

/-! ## Rounding -/

theorem shiftRight_succ (extended : ExtendedMantissa) (count : Nat) :
    extended >>> (count + 1) = (extended >>> count).shiftRightOne :=
  rfl

/-- Digits that are zero are dropped without a trace. -/
theorem shiftRight_mul (significand count : Nat) :
    ExtendedMantissa.ofMantissaAndAccuracy (significand * 2 ^ count) .exact >>> count =
      ⟨significand, false, false⟩ := by
  induction count generalizing significand with
  | zero => rw [pow_zero, mul_one]; rfl
  | succ count ih =>
      rw [shiftRight_succ, pow_succ', ← mul_assoc, ih]
      simp [ExtendedMantissa.shiftRightOne]

theorem shiftToExponent_mul (significand count : Nat) (exponent : Int) :
    shiftToExponent (significand * 2 ^ count) (exponent - count) .exact exponent =
      (⟨significand, false, false⟩, exponent) := by
  have amount : (exponent - (exponent - count)).toNat = count := by omega
  rw [shiftToExponent, amount, shiftRight_mul]
  simp

section

variable {significand : Nat} {exponent : Int} (canonical : IsCanonical significand exponent)
  (sign : Sign)

include canonical

theorem IsCanonical.shiftToTargetExponent_mul (count : Nat) :
    shiftToTargetExponent binary64 (significand * 2 ^ count) (exponent - count) .exact =
      (⟨significand, false, false⟩, exponent) := by
  rw [UnpackedFloat.shiftToTargetExponent, totalExponent_shift canonical.positive,
    canonical.targetExponent, shiftToExponent_mul]

theorem IsCanonical.roundWithAccuracy_mul (count : Nat) :
    roundWithAccuracy binary64 sign (significand * 2 ^ count) (exponent - count) .exact =
      .finite sign significand exponent canonical.positive := by
  have again := canonical.shiftToTargetExponent_mul 0
  rw [pow_zero, mul_one, Nat.cast_zero, sub_zero] at again
  have kept : (⟨significand, false, false⟩ : ExtendedMantissa).roundedMantissa = significand := rfl
  simp only [UnpackedFloat.roundWithAccuracy, canonical.shiftToTargetExponent_mul, kept, again]
  rw [dif_neg canonical.positive.ne']

/-- A value with a canonical form is rounded to this form. -/
theorem IsCanonical.roundWithAccuracy_eq {other : Nat} {otherExponent : Int}
    (same : dyadic other otherExponent = dyadic significand exponent)
    (ordered : otherExponent ≤ exponent) :
    roundWithAccuracy binary64 sign other otherExponent .exact =
      .finite sign significand exponent canonical.positive := by
  rw [eq_shift_of_dyadic_eq ordered same,
    ← canonical.roundWithAccuracy_mul sign (exponent - otherExponent).toNat]
  congr 1
  omega

theorem IsCanonical.round_eq {other : Nat} {otherExponent : Int} (positive : 0 < other)
    (same : dyadic other otherExponent = dyadic significand exponent) :
    UnpackedFloat.round binary64 sign other otherExponent =
      .finite sign significand exponent canonical.positive := by
  have aim : binary64.targetExponent (totalExponent other otherExponent) = exponent := by
    rw [totalExponent_congr positive canonical.positive same, canonical.targetExponent]
  simp only [UnpackedFloat.round, aim, decreaseExponent, Nat.shiftLeft_eq]
  refine canonical.roundWithAccuracy_eq sign ?_ (by omega)
  rw [dyadic_shift, same]

end

end Number

end Schematic
