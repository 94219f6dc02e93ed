import Schematic.Proofs.Number.Unpacked
import Schematic.Scalar

/-!
# Exact double-precision arithmetic

The value of a double-precision number is read from its bits.  This file
relates it to the unpacked form that the operations work on, so that every
operation is exact whenever its result is the value of some number.
-/

namespace Schematic

namespace Number

open Float.Model Float.Model.UnpackedFloat

/-- The number has a value, which is the given one. -/
def IsExactly (number : Float) (value : Rat) : Prop :=
  (Binary64.ofFloat number).value? = some value

/-! ## The bits of a number -/

section

variable (bits : BitVec 64)

theorem unpackMantissa_toNat :
    (@unpackMantissa binary64 bits).toNat = bits.toNat % Binary64.hiddenBit := by
  rw [unpackMantissa_def, BitVec.extractLsb'_toNat, Nat.shiftRight_zero]
  rfl

theorem unpackExponent_toNat :
    (@unpackExponent binary64 bits).toNat = bits.toNat / Binary64.hiddenBit % 2048 := by
  rw [unpackExponent_def, BitVec.extractLsb'_toNat, Nat.shiftRight_eq_div_pow]
  rfl

theorem unpackSign_toNat :
    (@unpackSign binary64 bits).toNat =
      bits.toNat / (2048 * Binary64.hiddenBit) % 2 := by
  rw [unpackSign_def, BitVec.extractLsb'_toNat, Nat.shiftRight_eq_div_pow]
  rfl

/-- The sign that is among the bits of a number. -/
def signOf (negative : Bool) : Sign :=
  if negative then .negative else .positive

theorem ofBitVec_unpackSign :
    Sign.ofBitVec (@unpackSign binary64 bits) =
      signOf (bits.toNat / (2048 * Binary64.hiddenBit) % 2 == 1) := by
  have digit := unpackSign_toNat bits
  rw [Sign.ofBitVec, signOf]
  rcases Nat.mod_two_eq_zero_or_one (bits.toNat / (2048 * Binary64.hiddenBit)) with zero | one
  · rw [zero] at digit ⊢
    rw [if_pos (BitVec.eq_of_toNat_eq digit)]
    rfl
  · rw [one] at digit ⊢
    rw [if_neg fun isZero => by rw [isZero] at digit; cases digit]
    rfl

end

theorem value?_finite (negative : Bool) (significand : Nat) (exponent : Int) :
    (Binary64.finite negative significand exponent).value? =
      some (withSign (signOf negative) (dyadic significand exponent)) := by
  rw [Binary64.value?, twoPow_eq]
  cases negative <;> rfl

theorem holds_finite_iff {sign : Sign} {significand : Nat} {exponent : Int}
    (canonical : IsCanonical significand exponent) (fits : exponent ≤ 971) {value : Rat} :
    Holds (.finite sign significand exponent canonical.positive) value ↔
      withSign sign (dyadic significand exponent) = value := by
  constructor
  · intro holds
    cases holds
    rfl
  · rintro rfl
    exact .finite sign canonical fits

theorem holds_zero_iff {sign : Sign} {value : Rat} : Holds (.zero sign) value ↔ value = 0 := by
  constructor
  · intro holds
    cases holds
    rfl
  · rintro rfl
    exact .zero sign

/-- The bits of a number hold its value in canonical form. -/
theorem value?_ofBits (bits : BitVec 64) (value : Rat) :
    (Binary64.ofBits bits.toNat).value? = some value ↔
      Holds (UnpackedFloat.unpack binary64 bits) value := by
  have fieldBelow : (@unpackExponent binary64 bits).toNat < 2048 :=
    (@unpackExponent binary64 bits).isLt
  have fractionBelow : (@unpackMantissa binary64 bits).toNat < 2 ^ 52 :=
    (@unpackMantissa binary64 bits).isLt
  have ones : (-1#11).toNat = 2047 := by decide
  have appended := toNat_append_one (@unpackMantissa binary64 bits)
  have hidden : Binary64.hiddenBit = 2 ^ 52 := by decide
  have bias : ((binary64.exponentBias : Int) + (52 : Nat)) = 1075 := rfl
  rw [Binary64.ofBits, UnpackedFloat.unpack, ← unpackExponent_toNat, ← unpackMantissa_toNat]
  simp only [ofBitVec_unpackSign, ← BitVec.toNat_inj, ones, BitVec.toNat_zero, bias]
  split_ifs with greatest isZero least isZero
  · exact ⟨nofun, nofun⟩
  · exact ⟨nofun, nofun⟩
  · rw [value?_finite, isZero, withSign_dyadic_zero, holds_zero_iff, Option.some_inj, eq_comm]
  · rw [value?_finite, Option.some_inj]
    simp only [least]
    exact (holds_finite_iff ⟨by omega, by omega, by decide, .inr rfl⟩ (by decide)).symm
  · rw [value?_finite, Option.some_inj]
    simp only [appended, hidden, add_comm _ (2 ^ 52)]
    exact (holds_finite_iff ⟨by omega, by omega, by omega, .inl (by omega)⟩ (by omega)).symm

/-! ## Operations -/

theorem isExactly_iff {number : Float} {value : Rat} :
    IsExactly number value ↔ Holds number.toModel.unpack value :=
  value?_ofBits number.toModel.toBits.toBitVec value

theorem isExactly_pack {number : UnpackedFloat} {value : Rat} (holds : Holds number value) :
    IsExactly (.ofModel (.pack number)) value := by
  rw [isExactly_iff]
  show Holds (UnpackedFloat.unpack binary64 (UnpackedFloat.pack binary64 number)) value
  rwa [unpack_pack holds]

theorem IsRepresentable.exists_isExactly {value : Rat} (representable : IsRepresentable value) :
    ∃ number, IsExactly number value := by
  obtain ⟨number, holds⟩ := representable
  exact ⟨_, isExactly_pack holds⟩

namespace IsExactly

variable {first second : Float} {firstValue secondValue : Rat}
  (firstExact : IsExactly first firstValue) (secondExact : IsExactly second secondValue)

include firstExact

theorem neg : IsExactly (-first) (-firstValue) :=
  isExactly_pack (neg_holds (isExactly_iff.mp firstExact))

theorem abs : IsExactly first.abs |firstValue| :=
  isExactly_pack (abs_holds (isExactly_iff.mp firstExact))

include secondExact

theorem add (representable : IsRepresentable (firstValue + secondValue)) :
    IsExactly (first + second) (firstValue + secondValue) :=
  isExactly_pack <|
    add_holds (isExactly_iff.mp firstExact) (isExactly_iff.mp secondExact) representable

theorem sub (representable : IsRepresentable (firstValue - secondValue)) :
    IsExactly (first - second) (firstValue - secondValue) :=
  isExactly_pack <|
    sub_holds (isExactly_iff.mp firstExact) (isExactly_iff.mp secondExact) representable

theorem mul (representable : IsRepresentable (firstValue * secondValue)) :
    IsExactly (first * second) (firstValue * secondValue) :=
  isExactly_pack <|
    mul_holds (isExactly_iff.mp firstExact) (isExactly_iff.mp secondExact) representable

theorem div (nonzero : secondValue ≠ 0)
    (representable : IsRepresentable (firstValue / secondValue)) :
    IsExactly (first / second) (firstValue / secondValue) :=
  isExactly_pack <|
    div_holds (isExactly_iff.mp firstExact) (isExactly_iff.mp secondExact) nonzero representable

theorem compare_eq : first.toModel.unpack.compare second.toModel.unpack =
    some (compare firstValue secondValue) :=
  compare_holds (isExactly_iff.mp firstExact) (isExactly_iff.mp secondExact)

theorem lt_iff : first < second ↔ firstValue < secondValue := by
  show decide (first.toModel.unpack.lt second.toModel.unpack = true) = true ↔ _
  rw [decide_eq_true_iff, UnpackedFloat.lt, compare_eq firstExact secondExact, beq_iff_eq,
    Option.some_inj, compare_lt_iff_lt]

theorem le_iff : first ≤ second ↔ firstValue ≤ secondValue := by
  show decide (first.toModel.unpack.le second.toModel.unpack = true) = true ↔ _
  rw [decide_eq_true_iff, UnpackedFloat.le, compare_eq firstExact secondExact, Option.any_some,
    Ordering.isLE_iff_ne_gt, ← compare_le_iff_le]

theorem beq_iff : (first == second) = true ↔ firstValue = secondValue := by
  show first.toModel.unpack.beq second.toModel.unpack = true ↔ _
  rw [UnpackedFloat.beq, compare_eq firstExact secondExact, beq_iff_eq, Option.some_inj,
    compare_eq_iff_eq]

end IsExactly

/-! ## Whole numbers and decimals -/

theorem isExactly_toFloat {count : Nat} (below : count < 2 ^ 53) :
    IsExactly count.toUInt64.toFloat count := by
  have same : count.toUInt64.toNat = count := by
    rw [Nat.toUInt64, UInt64.toNat_ofNat']
    omega
  have value : ((count : Int) : Rat) * 2 ^ (0 : Int) = count := by
    rw [zpow_zero, mul_one, Int.cast_natCast]
  have representable := isRepresentable_natCast below
  rw [← value] at representable ⊢
  show IsExactly (.ofModel (.pack (UnpackedFloat.ofNat binary64 count.toUInt64.toNat))) _
  rw [same]
  exact isExactly_pack (normalize_holds .positive representable)

theorem isExactly_one : IsExactly Float.exactlyRepresentablePowersOfTen[0] 1 := by
  rw [IsExactly]
  decide +kernel

theorem isExactly_million : IsExactly Float.exactlyRepresentablePowersOfTen[6] 1000000 := by
  rw [IsExactly]
  decide +kernel

theorem isExactly_ofNat {count : Nat} (below : count < 2 ^ 53) :
    IsExactly (Float.ofNat count) count := by
  have representable := isRepresentable_natCast below
  show IsExactly (Float.ofScientific count false 0) count
  rw [← mul_one (count : Rat)] at representable ⊢
  rw [Float.ofScientific, dif_pos ⟨below, by decide⟩, if_neg (by decide)]
  exact (isExactly_toFloat below).mul isExactly_one representable

/-- A decimal of six places that is the value of a number is converted exactly. -/
theorem isExactly_ofScientific {count : Nat}
    (representable : IsRepresentable ((count : Rat) / 1000000)) :
    IsExactly (Float.ofScientific count true 6) ((count : Rat) / 1000000) := by
  rw [Float.ofScientific]
  split
  · next short =>
    rw [if_pos rfl]
    exact (isExactly_toFloat short.1).div isExactly_million (by norm_num) representable
  · next long =>
    have positive : 0 < count := by omega
    have noUnderflow : ¬ (-6 : Int) < -((2 ^ binary64.exponentBits : Int) + count.log2) := by
      show ¬ (-6 : Int) < -(2048 + (count.log2 : Int))
      omega
    have values : (count : Rat) / 1000000 =
        withSign .positive (dyadic count 0) / withSign .positive (dyadic (10 ^ 6) 0) := by
      simp [withSign, dyadic]
    rw [values] at representable ⊢
    refine isExactly_pack ?_
    have scientific : UnpackedFloat.ofScientific binary64 count (-6) =
        UnpackedFloat.div binary64 (.finite .positive count 0 positive)
          (.finite .positive (10 ^ 6) 0 (by decide)) := by
      rw [UnpackedFloat.ofScientific, dif_neg positive.ne', if_neg (by decide), if_neg noUnderflow,
        if_neg (by decide)]
      rfl
    show Holds (UnpackedFloat.ofScientific binary64 count (-6)) _
    rw [scientific]
    exact div_finite_holds positive (by decide) representable

end Number

end Schematic
