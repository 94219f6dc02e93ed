import Schematic.Proofs.Number.Canonical

/-!
# Exact operations on unpacked numbers

The operations of double precision work on a sign, a significand and an
exponent, and round once at their end.  This file proves that an operation
whose exact result has a canonical form returns this result.
-/

namespace Schematic

namespace Number

open Float.Model Float.Model.UnpackedFloat

/-- A value with a sign. -/
def withSign : Sign → Rat → Rat
  | .positive, size => size
  | .negative, size => -size

/-- A number in canonical form and its value. -/
inductive Holds : UnpackedFloat → Rat → Prop where
  | zero (sign : Sign) : Holds (.zero sign) 0
  | finite (sign : Sign) {significand : Nat} {exponent : Int}
      (canonical : IsCanonical significand exponent) (fits : exponent ≤ 971) :
      Holds (.finite sign significand exponent canonical.positive)
        (withSign sign (dyadic significand exponent))

/-- A value that is the value of some number. -/
def IsRepresentable (value : Rat) : Prop :=
  ∃ number, Holds number value

/-! ## Signs -/

theorem withSign_neg (sign : Sign) (size : Rat) : withSign (-sign) size = -withSign sign size := by
  cases sign
  · exact (neg_neg size).symm
  · rfl

theorem withSign_mul (first second : Sign) (firstSize secondSize : Rat) :
    withSign (first * second) (firstSize * secondSize) =
      withSign first firstSize * withSign second secondSize := by
  cases first <;> cases second
  · exact (neg_mul_neg firstSize secondSize).symm
  · exact (neg_mul firstSize secondSize).symm
  · exact (mul_neg firstSize secondSize).symm
  · rfl

theorem withSign_div (first second : Sign) (firstSize secondSize : Rat) :
    withSign (first / second) (firstSize / secondSize) =
      withSign first firstSize / withSign second secondSize := by
  cases first <;> cases second
  · exact (neg_div_neg_eq firstSize secondSize).symm
  · exact (neg_div secondSize firstSize).symm
  · exact (div_neg firstSize).symm
  · rfl

theorem withSign_injective {first second : Sign} {firstSize secondSize : Rat}
    (firstPos : 0 < firstSize) (secondPos : 0 < secondSize)
    (same : withSign first firstSize = withSign second secondSize) :
    first = second ∧ firstSize = secondSize := by
  cases first <;> cases second <;> simp only [withSign] at same
  · exact ⟨rfl, neg_inj.mp same⟩
  · linarith
  · linarith
  · exact ⟨rfl, same⟩

theorem withSign_ne_zero {size : Rat} (positive : 0 < size) (sign : Sign) :
    withSign sign size ≠ 0 := by
  cases sign
  · exact neg_ne_zero.mpr positive.ne'
  · exact positive.ne'

theorem abs_withSign {size : Rat} (nonnegative : 0 ≤ size) (sign : Sign) :
    |withSign sign size| = size := by
  cases sign
  · rw [withSign, abs_neg, abs_of_nonneg nonnegative]
  · rw [withSign, abs_of_nonneg nonnegative]

theorem withSign_dyadic_zero (sign : Sign) (exponent : Int) :
    withSign sign (dyadic 0 exponent) = 0 := by
  cases sign <;> simp [withSign, dyadic]

theorem apply_mul_zpow (sign : Sign) (significand : Nat) (exponent : Int) :
    ((sign.apply significand : Int) : Rat) * 2 ^ exponent =
      withSign sign (dyadic significand exponent) := by
  cases sign
  · simp [Sign.apply, withSign, dyadic]
  · simp [Sign.apply, withSign, dyadic]

/-! ## Normalizing -/

/-- The canonical form of a value that is known in another form. -/
theorem IsRepresentable.exists_canonical {sign : Sign} {significand : Nat} {exponent : Int}
    (representable : IsRepresentable (withSign sign (dyadic significand exponent)))
    (positive : 0 < significand) :
    ∃ (canonicalSignificand : Nat) (canonicalExponent : Int)
      (canonical : IsCanonical canonicalSignificand canonicalExponent),
      dyadic significand exponent = dyadic canonicalSignificand canonicalExponent ∧
        Holds (.finite sign canonicalSignificand canonicalExponent canonical.positive)
          (withSign sign (dyadic significand exponent)) := by
  obtain ⟨number, holds⟩ := representable
  generalize same : withSign sign (dyadic significand exponent) = value at holds
  cases holds with
  | zero => exact absurd same (withSign_ne_zero (dyadic_pos positive exponent) sign)
  | finite other canonical fits =>
      obtain ⟨rfl, sizes⟩ := withSign_injective (dyadic_pos positive exponent)
        (dyadic_pos canonical.positive _) same
      exact ⟨_, _, canonical, sizes, .finite sign canonical fits⟩

theorem round_holds {sign : Sign} {significand : Nat} {exponent : Int}
    (positive : 0 < significand)
    (representable : IsRepresentable (withSign sign (dyadic significand exponent))) :
    Holds (UnpackedFloat.round binary64 sign significand exponent)
      (withSign sign (dyadic significand exponent)) := by
  obtain ⟨_, _, canonical, same, holds⟩ := representable.exists_canonical positive
  rwa [canonical.round_eq sign positive same]

theorem normalize_holds {count exponent : Int} (zeroSign : Sign)
    (representable : IsRepresentable ((count : Rat) * 2 ^ exponent)) :
    Holds (UnpackedFloat.normalize binary64 count exponent zeroSign)
      ((count : Rat) * 2 ^ exponent) := by
  unfold UnpackedFloat.normalize
  rcases lt_trichotomy count 0 with negative | rfl | positive
  · obtain ⟨size, same⟩ := Int.eq_ofNat_of_zero_le (by omega : 0 ≤ -count)
    obtain rfl : count = Sign.negative.apply size := by
      rw [Sign.apply]
      omega
    rw [apply_mul_zpow] at representable ⊢
    rw [Int.compare_eq_lt.mpr negative, same]
    exact round_holds (by omega) representable
  · rw [Int.cast_zero, zero_mul, Int.compare_eq_eq.mpr rfl]
    exact .zero zeroSign
  · obtain ⟨size, rfl⟩ := Int.eq_ofNat_of_zero_le positive.le
    rw [Int.compare_eq_gt.mpr positive]
    exact round_holds (by omega) representable

/-- Every value of fifty-three digits is represented. -/
theorem isRepresentable_withSign (sign : Sign) {significand : Nat} {exponent : Int}
    (below : significand < 2 ^ 53) (least : -1074 ≤ exponent) (fits : exponent ≤ 971) :
    IsRepresentable (withSign sign (dyadic significand exponent)) := by
  rcases Nat.eq_zero_or_pos significand with rfl | positive
  · rw [withSign_dyadic_zero]
    exact ⟨_, .zero sign⟩
  · obtain ⟨count, canonical⟩ := exists_canonical positive below least
    rw [← dyadic_shift significand count]
    exact ⟨_, .finite sign canonical (by omega)⟩

theorem isRepresentable_natCast {count : Nat} (below : count < 2 ^ 53) :
    IsRepresentable count := by
  have representable := isRepresentable_withSign .positive below (by decide : (-1074 : Int) ≤ 0)
    (by decide)
  rwa [withSign, dyadic, zpow_zero, mul_one] at representable

/-! ## Sums and differences -/

theorem neg_holds {number : UnpackedFloat} {value : Rat} (holds : Holds number value) :
    Holds number.neg (-value) := by
  cases holds with
  | zero sign =>
      rw [neg_zero]
      exact .zero (-sign)
  | finite sign canonical fits =>
      rw [← withSign_neg]
      exact .finite (-sign) canonical fits

theorem apply_decreaseExponent (sign : Sign) (significand : Nat) {exponent low : Int}
    (below : low ≤ exponent) :
    ((sign.apply (decreaseExponent significand exponent low).1 : Int) : Rat) * 2 ^ low =
      withSign sign (dyadic significand exponent) := by
  rw [apply_mul_zpow, decreaseExponent, Nat.shiftLeft_eq,
    ← dyadic_shift significand (exponent - low).toNat exponent]
  congr 2
  omega

theorem abs_holds {number : UnpackedFloat} {value : Rat} (holds : Holds number value) :
    Holds number.abs |value| := by
  cases holds with
  | zero sign =>
      rw [abs_zero]
      exact .zero .positive
  | @finite sign significand exponent canonical fits =>
      have size : |withSign sign (dyadic significand exponent)| =
          withSign .positive (dyadic significand exponent) := by
        have positive := dyadic_pos canonical.positive exponent
        cases sign
        · exact (abs_neg _).trans (abs_of_pos positive)
        · exact abs_of_pos positive
      rw [size]
      exact .finite .positive canonical fits

theorem apply_neg (sign : Sign) (count : Int) : (-sign).apply count = -sign.apply count := by
  cases sign
  · exact (neg_neg count).symm
  · rfl

/-- A difference is computed as the sum with the negated number. -/
theorem sub_eq_add_neg (first second : UnpackedFloat) :
    UnpackedFloat.sub binary64 first second = UnpackedFloat.add binary64 first second.neg := by
  cases first with
  | notANumber => rfl
  | infinity firstSign => cases second <;> rfl
  | zero firstSign => cases second <;> rfl
  | finite firstSign =>
      cases second with
      | finite secondSign =>
          simp only [UnpackedFloat.sub, UnpackedFloat.neg, UnpackedFloat.add, apply_neg,
            Int.sub_eq_add_neg]
      | _ => rfl

section

variable {first second : UnpackedFloat} {firstValue secondValue : Rat}
  (firstHolds : Holds first firstValue) (secondHolds : Holds second secondValue)

include firstHolds secondHolds

theorem add_holds (representable : IsRepresentable (firstValue + secondValue)) :
    Holds (UnpackedFloat.add binary64 first second) (firstValue + secondValue) := by
  cases firstHolds with
  | zero firstSign =>
      rw [zero_add]
      cases secondHolds with
      | zero secondSign =>
          rw [UnpackedFloat.add]
          split <;> exact .zero _
      | finite secondSign canonical fits => exact .finite secondSign canonical fits
  | @finite firstSign firstSignificand firstExponent firstCanonical firstFits =>
      cases secondHolds with
      | zero =>
          rw [add_zero]
          exact .finite firstSign firstCanonical firstFits
      | @finite secondSign secondSignificand secondExponent =>
          rw [← apply_decreaseExponent firstSign firstSignificand
            (min_le_left firstExponent secondExponent),
            ← apply_decreaseExponent secondSign secondSignificand
              (min_le_right firstExponent secondExponent),
            ← add_mul, ← Int.cast_add] at representable ⊢
          exact normalize_holds .positive representable

theorem sub_holds (representable : IsRepresentable (firstValue - secondValue)) :
    Holds (UnpackedFloat.sub binary64 first second) (firstValue - secondValue) := by
  rw [Rat.sub_eq_add_neg] at representable ⊢
  rw [sub_eq_add_neg]
  exact add_holds firstHolds (neg_holds secondHolds) representable

end

/-! ## Products and quotients -/

theorem dyadic_mul (first second : Nat) (firstExponent secondExponent : Int) :
    dyadic (first * second) (firstExponent + secondExponent) =
      dyadic first firstExponent * dyadic second secondExponent := by
  rw [dyadic, dyadic, dyadic, zpow_add₀ (by norm_num)]
  push_cast
  ring

/-- A product never has a smaller exponent than its factors together. -/
theorem IsCanonical.le_of_mul {first second product : Nat}
    {firstExponent secondExponent exponent : Int}
    (firstCanonical : IsCanonical first firstExponent)
    (secondCanonical : IsCanonical second secondExponent)
    (canonical : IsCanonical product exponent)
    (same : dyadic (first * second) (firstExponent + secondExponent) = dyadic product exponent) :
    firstExponent + secondExponent ≤ exponent := by
  by_contra below
  have shifted := eq_shift_of_dyadic_eq (by omega) same.symm
  have twice : 2 ≤ 2 ^ (firstExponent + secondExponent - exponent).toNat :=
    Nat.le_self_pow (by omega) 2
  have bound : first * second * 2 ≤ product := by
    rw [shifted]
    exact Nat.mul_le_mul_left _ twice
  have least := canonical.least
  have short := canonical.below
  rcases firstCanonical.full with firstLong | firstLeast
  · have product : 2 ^ 52 * 1 ≤ first * second :=
      Nat.mul_le_mul firstLong secondCanonical.positive
    omega
  · rcases secondCanonical.full with secondLong | secondLeast
    · have product : 1 * 2 ^ 52 ≤ first * second :=
        Nat.mul_le_mul firstCanonical.positive secondLong
      omega
    · omega

theorem mul_holds {first second : UnpackedFloat} {firstValue secondValue : Rat}
    (firstHolds : Holds first firstValue) (secondHolds : Holds second secondValue)
    (representable : IsRepresentable (firstValue * secondValue)) :
    Holds (UnpackedFloat.mul binary64 first second) (firstValue * secondValue) := by
  cases firstHolds with
  | zero firstSign =>
      rw [zero_mul]
      cases secondHolds <;> exact .zero _
  | @finite firstSign firstSignificand firstExponent firstCanonical firstFits =>
      cases secondHolds with
      | zero =>
          rw [mul_zero]
          exact .zero _
      | @finite secondSign secondSignificand secondExponent secondCanonical secondFits =>
          rw [← withSign_mul, ← dyadic_mul] at representable ⊢
          obtain ⟨_, _, canonical, same, holds⟩ := representable.exists_canonical
            (Nat.mul_pos firstCanonical.positive secondCanonical.positive)
          have ordered := firstCanonical.le_of_mul secondCanonical canonical same
          rw [UnpackedFloat.mul, canonical.roundWithAccuracy_eq _ same ordered]
          exact holds

/-- The exponent of the leading digit bounds a value. -/
theorem totalExponent_bounds {significand : Nat} (positive : 0 < significand) (exponent : Int) :
    (2 : Rat) ^ (totalExponent significand exponent - 1) ≤ dyadic significand exponent ∧
      dyadic significand exponent < 2 ^ totalExponent significand exponent := by
  have power : (0 : Rat) < 2 ^ exponent := zpow_pos (by norm_num) exponent
  have low : ((2 ^ significand.log2 : Nat) : Rat) ≤ significand :=
    Nat.cast_le.mpr (Nat.log2_self_le positive.ne')
  have high : (significand : Rat) < (2 ^ (significand.log2 + 1) : Nat) :=
    Nat.cast_lt.mpr Nat.lt_log2_self
  rw [Nat.cast_pow, Nat.cast_two, ← zpow_natCast] at low high
  have lowSplit : totalExponent significand exponent - 1 = significand.log2 + exponent := by
    rw [totalExponent]
    ring
  have highSplit : totalExponent significand exponent =
      ((significand.log2 + 1 : Nat) : Int) + exponent := by
    rw [totalExponent]
    push_cast
    ring
  rw [lowSplit, highSplit, zpow_add₀ (by norm_num), zpow_add₀ (by norm_num), dyadic]
  exact ⟨mul_le_mul_of_nonneg_right low power.le, mul_lt_mul_of_pos_right high power⟩

/-- The exponent of a quotient is at least the difference of those of its two
parts. -/
theorem totalExponent_sub_le {first second quotient : Nat}
    {firstExponent secondExponent exponent : Int} (firstPos : 0 < first) (secondPos : 0 < second)
    (quotientPos : 0 < quotient)
    (same : dyadic first firstExponent = dyadic quotient exponent * dyadic second secondExponent) :
    totalExponent first firstExponent - totalExponent second secondExponent ≤
      totalExponent quotient exponent := by
  have firstLow := (totalExponent_bounds firstPos firstExponent).1
  have quotientHigh := (totalExponent_bounds quotientPos exponent).2
  have secondHigh := (totalExponent_bounds secondPos secondExponent).2
  have less : (2 : Rat) ^ (totalExponent first firstExponent - 1) <
      2 ^ (totalExponent quotient exponent + totalExponent second secondExponent) := by
    calc (2 : Rat) ^ (totalExponent first firstExponent - 1)
        ≤ dyadic quotient exponent * dyadic second secondExponent := firstLow.trans_eq same
      _ < 2 ^ totalExponent quotient exponent * 2 ^ totalExponent second secondExponent :=
          mul_lt_mul'' quotientHigh secondHigh (dyadic_pos quotientPos exponent).le
            (dyadic_pos secondPos secondExponent).le
      _ = _ := (zpow_add₀ (by norm_num) _ _).symm
  have exponents := (zpow_lt_zpow_iff_right₀ (by norm_num : (1 : Rat) < 2)).mp less
  omega

/-- A quotient with a canonical form is computed without a remainder. -/
theorem IsCanonical.divCore {first second quotient : Nat}
    {firstExponent secondExponent exponent : Int} (canonical : IsCanonical quotient exponent)
    (firstPos : 0 < first) (secondPos : 0 < second)
    (same : dyadic first firstExponent = dyadic quotient exponent * dyadic second secondExponent) :
    ∃ count : Nat, divCore binary64 first firstExponent second secondExponent =
      (quotient * 2 ^ count, exponent - count, .exact) := by
  have totals := totalExponent_sub_le firstPos secondPos canonical.positive same
  have aim := canonical.targetExponent
  rw [targetExponent_eq] at aim
  generalize target : min (firstExponent - secondExponent)
    (binary64.targetExponent (totalExponent first firstExponent -
      totalExponent second secondExponent)) = low
  rw [targetExponent_eq] at target
  have below : low ≤ exponent := by omega
  have shifted : dyadic (first * 2 ^ (firstExponent - secondExponent - low).toNat)
      (low + secondExponent) = dyadic (quotient * second) (exponent + secondExponent) := by
    rw [dyadic_mul quotient, ← same,
      ← dyadic_shift first (firstExponent - secondExponent - low).toNat firstExponent]
    congr 1
    omega
  have multiple := eq_shift_of_dyadic_eq (by omega) shifted
  have exponents : (exponent + secondExponent - (low + secondExponent)).toNat =
      (exponent - low).toNat := by omega
  refine ⟨(exponent - low).toNat, ?_⟩
  rw [UnpackedFloat.divCore, targetExponent_eq, target]
  simp only [Nat.shiftLeft_eq, multiple, exponents]
  rw [mul_right_comm, Nat.mul_div_cancel _ secondPos, Nat.mul_mod_left]
  refine Prod.ext rfl (Prod.ext ?_ rfl)
  show low = exponent - ((exponent - low).toNat : Int)
  omega

/-- A quotient of two values in any form. -/
theorem div_finite_holds {firstSign secondSign : Sign} {first second : Nat}
    {firstExponent secondExponent : Int} (firstPos : 0 < first) (secondPos : 0 < second)
    (representable : IsRepresentable (withSign firstSign (dyadic first firstExponent) /
      withSign secondSign (dyadic second secondExponent))) :
    Holds (UnpackedFloat.div binary64 (.finite firstSign first firstExponent firstPos)
        (.finite secondSign second secondExponent secondPos))
      (withSign firstSign (dyadic first firstExponent) /
        withSign secondSign (dyadic second secondExponent)) := by
  have firstSize := dyadic_pos firstPos firstExponent
  have secondSize := dyadic_pos secondPos secondExponent
  rw [← withSign_div] at representable ⊢
  obtain ⟨number, holds⟩ := representable
  generalize same : withSign (firstSign / secondSign)
    (dyadic first firstExponent / dyadic second secondExponent) = value at holds ⊢
  cases holds with
  | zero => exact absurd same (withSign_ne_zero (div_pos firstSize secondSize) _)
  | finite sign canonical fits =>
      obtain ⟨rfl, sizes⟩ := withSign_injective (div_pos firstSize secondSize)
        (dyadic_pos canonical.positive _) same
      obtain ⟨count, divided⟩ := canonical.divCore firstPos secondPos
        ((div_eq_iff secondSize.ne').mp sizes)
      rw [UnpackedFloat.div, divided]
      simp only [canonical.roundWithAccuracy_mul]
      exact .finite _ canonical fits

theorem div_holds {first second : UnpackedFloat} {firstValue secondValue : Rat}
    (firstHolds : Holds first firstValue) (secondHolds : Holds second secondValue)
    (nonzero : secondValue ≠ 0) (representable : IsRepresentable (firstValue / secondValue)) :
    Holds (UnpackedFloat.div binary64 first second) (firstValue / secondValue) := by
  cases secondHolds with
  | zero => exact absurd rfl nonzero
  | finite secondSign secondCanonical =>
      cases firstHolds with
      | zero =>
          rw [zero_div]
          exact .zero _
      | finite firstSign firstCanonical =>
          exact div_finite_holds firstCanonical.positive secondCanonical.positive representable

/-! ## Order -/

theorem IsCanonical.dyadic_lt {first second : Nat} {firstExponent secondExponent : Int}
    (firstCanonical : IsCanonical first firstExponent)
    (secondCanonical : IsCanonical second secondExponent) (below : firstExponent < secondExponent) :
    dyadic first firstExponent < dyadic second secondExponent := by
  have least := firstCanonical.least
  have long : 2 ^ 52 ≤ second := secondCanonical.full.resolve_right (by omega)
  have short := firstCanonical.below
  have gap : 2 ≤ 2 ^ (secondExponent - firstExponent).toNat := Nat.le_self_pow (by omega) 2
  have less : first < second * 2 ^ (secondExponent - firstExponent).toNat :=
    calc first < 2 ^ 52 * 2 := short
      _ ≤ _ := Nat.mul_le_mul long gap
  rw [← dyadic_shift second (secondExponent - firstExponent).toNat secondExponent,
    show secondExponent - ((secondExponent - firstExponent).toNat : Int) = firstExponent by omega]
  exact mul_lt_mul_of_pos_right (Nat.cast_lt.mpr less) (zpow_pos (by norm_num) firstExponent)

/-- Comparing canonical forms by their exponents, and by their significands if
these are equal, compares their values. -/
theorem IsCanonical.compare_eq {first second : Nat} {firstExponent secondExponent : Int}
    (firstCanonical : IsCanonical first firstExponent)
    (secondCanonical : IsCanonical second secondExponent) :
    (compare firstExponent secondExponent).then (compare first second) =
      compare (dyadic first firstExponent) (dyadic second secondExponent) := by
  rcases lt_trichotomy firstExponent secondExponent with below | rfl | above
  · rw [compare_lt_iff_lt.mpr below,
      compare_lt_iff_lt.mpr (firstCanonical.dyadic_lt secondCanonical below)]
    rfl
  · have power : (0 : Rat) < 2 ^ firstExponent := zpow_pos (by norm_num) firstExponent
    rw [compare_eq_iff_eq.mpr rfl]
    rcases lt_trichotomy first second with below | rfl | above
    · rw [Ordering.then, compare_lt_iff_lt.mpr below, compare_lt_iff_lt.mpr]
      exact mul_lt_mul_of_pos_right (Nat.cast_lt.mpr below) power
    · rw [Ordering.then, compare_eq_iff_eq.mpr rfl, compare_eq_iff_eq.mpr rfl]
    · rw [Ordering.then, compare_gt_iff_gt.mpr above, compare_gt_iff_gt.mpr]
      exact mul_lt_mul_of_pos_right (Nat.cast_lt.mpr above) power
  · rw [compare_gt_iff_gt.mpr above,
      compare_gt_iff_gt.mpr (secondCanonical.dyadic_lt firstCanonical above)]
    rfl

theorem compare_neg_neg (first second : Rat) :
    compare (-first) (-second) = (compare first second).swap := by
  rcases lt_trichotomy first second with below | rfl | above
  · rw [compare_lt_iff_lt.mpr below, compare_gt_iff_gt.mpr (neg_lt_neg below)]
    rfl
  · rw [compare_eq_iff_eq.mpr rfl, compare_eq_iff_eq.mpr rfl]
    rfl
  · rw [compare_gt_iff_gt.mpr above, compare_lt_iff_lt.mpr (neg_lt_neg above)]
    rfl

theorem compare_holds {first second : UnpackedFloat} {firstValue secondValue : Rat}
    (firstHolds : Holds first firstValue) (secondHolds : Holds second secondValue) :
    first.compare second = some (compare firstValue secondValue) := by
  cases firstHolds with
  | zero firstSign =>
      cases secondHolds with
      | zero => rw [compare_eq_iff_eq.mpr rfl, UnpackedFloat.compare]
      | finite secondSign canonical =>
          have size := dyadic_pos canonical.positive
          cases secondSign with
          | negative =>
              rw [withSign, compare_gt_iff_gt.mpr (neg_neg_of_pos (size _)), UnpackedFloat.compare]
          | positive => rw [withSign, compare_lt_iff_lt.mpr (size _), UnpackedFloat.compare]
  | finite firstSign firstCanonical =>
      have firstSize := dyadic_pos firstCanonical.positive
      cases secondHolds with
      | zero =>
          cases firstSign with
          | negative =>
              rw [withSign, compare_lt_iff_lt.mpr (neg_neg_of_pos (firstSize _)),
                UnpackedFloat.compare]
          | positive => rw [withSign, compare_gt_iff_gt.mpr (firstSize _), UnpackedFloat.compare]
      | finite secondSign secondCanonical =>
          have secondSize := dyadic_pos secondCanonical.positive
          cases firstSign <;> cases secondSign
          · rw [UnpackedFloat.compare, firstCanonical.compare_eq secondCanonical]
            exact congrArg some (compare_neg_neg _ _).symm
          · rw [UnpackedFloat.compare, compare_lt_iff_lt.mpr]
            exact (neg_neg_of_pos (firstSize _)).trans (secondSize _)
          · rw [UnpackedFloat.compare, compare_gt_iff_gt.mpr]
            exact (neg_neg_of_pos (secondSize _)).trans (firstSize _)
          · rw [UnpackedFloat.compare, firstCanonical.compare_eq secondCanonical]
            rfl

/-! ## Packing -/

theorem toNat_append_one (fraction : BitVec 52) :
    (1#1 ++ fraction).toNat = 2 ^ 52 + fraction.toNat := by
  rw [BitVec.toNat_append, ← Nat.shiftLeft_add_eq_or_of_lt fraction.isLt]
  rfl

/-- The parts of a number with a hidden leading digit. -/
theorem unpack_normal (sign : Sign) {field : BitVec 11} (notLeast : 0 < field.toNat)
    (notGreatest : field.toNat < 2047) (fraction : BitVec 52) :
    UnpackedFloat.unpack binary64 (packComponents binary64 sign field fraction) =
      .finite sign (1#1 ++ fraction).toNat ((field.toNat : Int) - 1075)
        (by rw [toNat_append_one]; omega) := by
  have notOnes : field ≠ -1#11 := by
    rintro rfl
    exact absurd notGreatest (by decide)
  have notZero : field ≠ 0#11 := by
    rintro rfl
    exact absurd notLeast (by decide)
  simp only [UnpackedFloat.unpack, unpackMantissa_packComponents, unpackExponent_packComponents,
    unpackSign_packComponents, Sign.ofBitVec_toBitVec]
  rw [if_neg notOnes, if_neg notZero]
  rfl

/-- The parts of a number without a hidden leading digit. -/
theorem unpack_subnormal (sign : Sign) {fraction : BitVec 52} (positive : 0 < fraction.toNat) :
    UnpackedFloat.unpack binary64 (packComponents binary64 sign 0#11 fraction) =
      .finite sign fraction.toNat (-1074) positive := by
  have nonzero : fraction ≠ 0#52 := by
    rintro rfl
    exact absurd positive (lt_irrefl 0)
  simp only [UnpackedFloat.unpack, unpackMantissa_packComponents, unpackExponent_packComponents,
    unpackSign_packComponents, Sign.ofBitVec_toBitVec]
  rw [if_neg (by decide), if_pos trivial, dif_neg nonzero]
  rfl

/-- A number in canonical form is unpacked from its bits again. -/
theorem unpack_pack {number : UnpackedFloat} {value : Rat} (holds : Holds number value) :
    UnpackedFloat.unpack binary64 (UnpackedFloat.pack binary64 number) = number := by
  cases holds with
  | zero sign => cases sign <;> rfl
  | @finite sign significand exponent canonical fits =>
      have least := canonical.least
      have below := canonical.below
      obtain ⟨field, same⟩ := Int.eq_ofNat_of_zero_le (by omega : 0 ≤ exponent + 1075)
      obtain rfl : exponent = field - 1075 := by omega
      have biased : ((field : Int) - 1075 + binary64.exponentBias +
          binary64.mantissaBitsWithoutImplicit).toNat = field := by
        show ((field : Int) - 1075 + 1023 + 52).toNat = field
        omega
      have noOverflow : ¬ 2 ^ binary64.exponentBits ≤ field + 1 := by
        show ¬ 2048 ≤ field + 1
        omega
      rw [UnpackedFloat.pack, biased, if_neg noOverflow]
      rcases canonical.log2 with full | ⟨short, isLeast⟩
      · have long : 2 ^ 52 ≤ significand := (Nat.le_log2 canonical.positive.ne').mp full.ge
        have fieldSame : (BitVec.ofNat 11 field).toNat = field :=
          (BitVec.toNat_ofNat field 11).trans (Nat.mod_eq_of_lt (by omega))
        have fractionSame : (1#1 ++ BitVec.ofNat 52 significand).toNat = significand := by
          rw [toNat_append_one, BitVec.toNat_ofNat]
          omega
        rw [if_pos (by rw [full]; rfl), unpack_normal sign (by rw [fieldSame]; omega)
          (by rw [fieldSame]; omega)]
        simp only [fieldSame, fractionSame]
      · have less : significand < 2 ^ 52 := (Nat.log2_lt canonical.positive.ne').mp short
        have fractionSame : (BitVec.ofNat 52 significand).toNat = significand :=
          (BitVec.toNat_ofNat significand 52).trans (Nat.mod_eq_of_lt less)
        have notFull : ¬ significand.log2 + 1 = binary64.mantissaBits := by
          show ¬ significand.log2 + 1 = 53
          omega
        rw [if_neg notFull, unpack_subnormal sign (fractionSame.symm ▸ canonical.positive)]
        simp only [fractionSame, isLeast]

end Number

end Schematic
