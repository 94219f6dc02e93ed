import Schematic.Proofs.Number.Halves

/-!
# The range of double precision

A whole number that is not beyond the largest double-precision number is converted to a
finite number.  It may have to be rounded: its first fifty-three digits are kept, or
the next larger significand is taken, which has one digit more only if all digits are
ones.
-/

namespace Schematic

namespace Number

open Float.Model Float.Model.UnpackedFloat

/-- The largest double-precision number. -/
def largestFinite : Nat :=
  (2 ^ 53 - 1) * 2 ^ 971

theorem IsExactly.isFinite {number : Float} {value : Rat} (exact : IsExactly number value) :
    number.isFinite = true := by
  show number.toModel.unpack.isFinite = true
  generalize number.toModel.unpack = unpacked, isExactly_iff.mp exact = holds
  cases holds <;> rfl

/-! ## Rounding a significand -/

theorem mantissa_shiftRight (extended : ExtendedMantissa) (count : Nat) :
    (extended >>> count).mantissa = extended.mantissa / 2 ^ count := by
  induction count with
  | zero => exact (Nat.div_one _).symm
  | succ count ih =>
      rw [shiftRight_succ, ExtendedMantissa.shiftRightOne, ih, Nat.div_div_eq_div_mul, pow_succ]

/-- Rounding keeps a significand or takes the next one. -/
theorem roundedMantissa_bounds (extended : ExtendedMantissa) :
    extended.mantissa ≤ extended.roundedMantissa ∧
      extended.roundedMantissa ≤ extended.mantissa + 1 := by
  unfold ExtendedMantissa.roundedMantissa
  cases extended.accuracy with
  | exact => exact ⟨Nat.le_refl _, Nat.le_succ _⟩
  | inexact order =>
      cases order with
      | lt => exact ⟨Nat.le_refl _, Nat.le_succ _⟩
      | eq => simp only [Accuracy.roundToNearestEven]; omega
      | gt => exact ⟨Nat.le_succ _, Nat.le_refl _⟩

theorem roundWithAccuracy_eq_finite (sign : Sign) {significand middle final : Nat}
    {exponent middleExponent finalExponent : Int} {extended : ExtendedMantissa}
    (canonical : IsCanonical final finalExponent) (rounded : extended.roundedMantissa = middle)
    (first : shiftToTargetExponent binary64 significand exponent .exact =
      (extended, middleExponent))
    (second : shiftToTargetExponent binary64 middle middleExponent .exact =
      (⟨final, false, false⟩, finalExponent)) :
    roundWithAccuracy binary64 sign significand exponent .exact =
      .finite sign final finalExponent canonical.positive := by
  simp only [roundWithAccuracy, first, rounded, second]
  rw [dif_neg canonical.positive.ne']

section

variable {significand count : Nat} {exponent : Int}
  (long : 2 ^ 52 ≤ significand / 2 ^ count) (short : significand / 2 ^ count < 2 ^ 53)
  (least : -1074 ≤ exponent + count)

include long short

theorem log2_of_quotient : significand.log2 = 52 + count := by
  have positive := Nat.two_pow_pos count
  have lower := (Nat.le_div_iff_mul_le positive).mp long
  have upper := (Nat.div_lt_iff_lt_mul positive).mp short
  rw [← pow_add] at lower upper
  have nonzero : significand ≠ 0 := by
    have := Nat.two_pow_pos (52 + count)
    omega
  exact (Nat.log2_eq_iff nonzero).mpr ⟨lower, by rwa [Nat.add_right_comm]⟩

include least

/-- The digits behind the first fifty-three are shifted away. -/
theorem shiftToTargetExponent_long :
    shiftToTargetExponent binary64 significand exponent .exact =
      (ExtendedMantissa.ofMantissaAndAccuracy significand .exact >>> count, exponent + count) := by
  have total : binary64.targetExponent (totalExponent significand exponent) = exponent + count := by
    rw [targetExponent_eq, totalExponent, log2_of_quotient long short]
    push_cast
    omega
  have amount : (exponent + count - exponent).toNat = count := by omega
  rw [shiftToTargetExponent, total, shiftToExponent, amount]

/-- A long significand is rounded to a number, if there is room for one more digit where
a digit may be added. -/
theorem exists_holds_roundWithAccuracy (sign : Sign)
    (room : exponent + count < 971 ∨
      exponent + count = 971 ∧ significand / 2 ^ count + 1 < 2 ^ 53) :
    ∃ value, Holds (roundWithAccuracy binary64 sign significand exponent .exact) value := by
  have shifted := shiftToTargetExponent_long long short least
  generalize kept : ExtendedMantissa.ofMantissaAndAccuracy significand .exact >>> count = extended
    at shifted
  have quotient : extended.mantissa = significand / 2 ^ count := by
    rw [← kept, mantissa_shiftRight]
    rfl
  obtain ⟨atLeast, atMost⟩ := roundedMantissa_bounds extended
  rw [quotient] at atLeast atMost
  generalize rounded : extended.roundedMantissa = middle at atLeast atMost
  -- The rounded significand has fifty-three digits, or it is the least one with fifty-four.
  rcases Nat.lt_or_ge middle (2 ^ 53) with below | above
  · have canonical : IsCanonical middle (exponent + count) :=
      ⟨by omega, below, least, .inl (by omega)⟩
    have again := canonical.shiftToTargetExponent_mul 0
    rw [pow_zero, mul_one, Nat.cast_zero, sub_zero] at again
    rw [roundWithAccuracy_eq_finite sign canonical rounded shifted again]
    exact ⟨_, .finite sign canonical (by omega)⟩
  · have canonical : IsCanonical (2 ^ 52) (exponent + count + 1) :=
      ⟨by decide, by decide, by omega, .inl (Nat.le_refl _)⟩
    have again := canonical.shiftToTargetExponent_mul 1
    have carried : middle = 2 ^ 52 * 2 ^ 1 := by omega
    rw [Nat.cast_one, add_sub_cancel_right, ← carried] at again
    rw [roundWithAccuracy_eq_finite sign canonical rounded shifted again]
    exact ⟨_, .finite sign canonical (by omega)⟩

end

/-! ## Whole numbers -/

/-- Fifty-three ones are not rounded. -/
theorem exists_holds_ones (sign : Sign) {zeros : Nat} (few : zeros ≤ 971) :
    ∃ value, Holds (roundWithAccuracy binary64 sign ((2 ^ 53 - 1) * 2 ^ zeros * 2 ^ 53) (-53)
      .exact) value := by
  have canonical : IsCanonical (2 ^ 53 - 1) zeros :=
    ⟨by decide, by decide, by omega, .inl (by decide)⟩
  have exact := canonical.roundWithAccuracy_mul sign (zeros + 53)
  have aim : (zeros : Int) - (zeros + 53 : Nat) = -53 := by omega
  rw [aim, pow_add, ← mul_assoc] at exact
  rw [exact]
  exact ⟨_, .finite sign canonical (by omega)⟩

/-- A significand of fifty-three digits with further ones behind it has room for
rounding, unless it is beyond fifty-three ones. -/
theorem exists_holds_long (sign : Sign) {count zeros : Nat} (few : zeros ≤ 971)
    (long : 2 ^ 53 ≤ count) (within : count ≤ (2 ^ 53 - 1) * 2 ^ zeros) :
    ∃ value, Holds (roundWithAccuracy binary64 sign (count * 2 ^ 53) (-53) .exact) value := by
  rcases Nat.lt_or_eq_of_le within with less | rfl
  · obtain ⟨extra, digits⟩ : ∃ extra, count.log2 = 52 + extra :=
      Nat.exists_eq_add_of_le ((Nat.le_log2 (by omega)).mpr (by omega))
    obtain ⟨lower, upper⟩ := (Nat.log2_eq_iff (by omega)).mp digits
    have positive := Nat.two_pow_pos extra
    have quotient : count * 2 ^ 53 / 2 ^ (extra + 53) = count / 2 ^ extra := by
      rw [pow_add, Nat.mul_div_mul_right _ _ (Nat.two_pow_pos 53)]
    have atLeast : 2 ^ 52 ≤ count / 2 ^ extra :=
      (Nat.le_div_iff_mul_le positive).mpr (by rwa [← pow_add])
    have below : count / 2 ^ extra < 2 ^ 53 :=
      (Nat.div_lt_iff_lt_mul positive).mpr (by rwa [← pow_add, Nat.add_right_comm 52 1])
    have atMost : extra ≤ zeros := by
      have bounded : 2 ^ 52 * 2 ^ extra < 2 ^ 53 * 2 ^ zeros := by
        calc 2 ^ 52 * 2 ^ extra ≤ count := by rwa [← pow_add]
          _ < (2 ^ 53 - 1) * 2 ^ zeros := less
          _ ≤ 2 ^ 53 * 2 ^ zeros := Nat.mul_le_mul_right _ (by decide)
      rw [← pow_add, ← pow_add, Nat.pow_lt_pow_iff_right (by decide)] at bounded
      omega
    refine exists_holds_roundWithAccuracy (by rwa [quotient]) (by rwa [quotient])
      (by push_cast; omega) sign ?_
    rw [quotient]
    rcases Nat.lt_or_eq_of_le atMost with more | rfl
    · exact .inl (by push_cast; omega)
    · have top : count / 2 ^ extra < 2 ^ 53 - 1 := (Nat.div_lt_iff_lt_mul positive).mpr less
      rcases Nat.lt_or_eq_of_le few with lower | isLast
      · exact .inl (by push_cast; omega)
      · exact .inr ⟨by push_cast; omega, by omega⟩
  · exact exists_holds_ones sign few

/-- A whole number of more than fifty-three digits is converted by one rounding. -/
theorem ofScientific_long {count : Nat} (positive : 0 < count) :
    UnpackedFloat.ofScientific binary64 count 0 =
      roundWithAccuracy binary64 (.positive * .positive) (count * 2 ^ 53) (-53) .exact := by
  have noOverflow : ¬ (0 : Int) > 2 ^ binary64.exponentBits := by decide
  have noUnderflow : ¬ (0 : Int) < -((2 ^ binary64.exponentBits : Int) + count.log2) := by
    show ¬ (0 : Int) < -(2048 + (count.log2 : Int))
    omega
  rw [UnpackedFloat.ofScientific, dif_neg positive.ne', if_neg noOverflow, if_neg noUnderflow,
    if_pos (le_refl 0), UnpackedFloat.mul]
  have digits : count <<< binary64.mantissaBits * 10 ^ (0 : Int).toNat = count * 2 ^ 53 := by
    rw [Nat.shiftLeft_eq, Int.toNat_zero, pow_zero, mul_one]
    rfl
  rw [digits]
  rfl

theorem exists_isExactly_ofNat {count : Nat} (within : count ≤ largestFinite) :
    ∃ value, IsExactly (Float.ofNat count) value := by
  rcases Nat.lt_or_ge count (2 ^ 53) with short | long
  · exact ⟨_, isExactly_ofNat short⟩
  · obtain ⟨value, holds⟩ :=
      exists_holds_long (.positive * .positive) (le_refl 971) long within
    refine ⟨value, ?_⟩
    show IsExactly (Float.ofScientific count false 0) value
    rw [Float.ofScientific, dif_neg (by omega)]
    refine isExactly_pack ?_
    show Holds (UnpackedFloat.ofScientific binary64 count 0) value
    rwa [ofScientific_long (by omega)]

/-- A whole number within the range is converted to a finite number. -/
theorem isFinite_ofInt {count : Int} (within : count.natAbs ≤ largestFinite) :
    (Float.ofInt count).isFinite = true := by
  cases count with
  | ofNat count =>
      obtain ⟨value, exact⟩ := exists_isExactly_ofNat within
      exact exact.isFinite
  | negSucc count =>
      obtain ⟨value, exact⟩ := exists_isExactly_ofNat (show count + 1 ≤ largestFinite from within)
      exact exact.neg.isFinite

end Number

end Schematic
