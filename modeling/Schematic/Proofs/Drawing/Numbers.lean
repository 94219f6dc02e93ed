import Schematic.Drawing.Svg
import Schematic.Proofs.Number.Coordinates
import Schematic.Proofs.Outcome

/-!
# Numbers in a drawing

Every number that has a value is written as a plain decimal that is as short as
its places allow.  This file says how far the decimal may be from the number, when
a zero gets a minus, and that the decimals are in the order of the numbers.
-/

namespace Schematic

open Number (IsExactly Literal roundHalfEven)

namespace Svg

/-- A number is written, and the text is this plain decimal. -/
def Writes (number : Float) (literal : Literal) : Prop :=
  ∃ text, Svg.number number = .ok text ∧ Literal.read? text.toList = some literal

theorem number_eq {number : Float} {value : Rat} (exact : IsExactly number value) :
    Svg.number number = .ok (Number.coordinateText value) := by
  rw [IsExactly] at exact
  rw [Svg.number]
  generalize Number.Binary64.ofFloat number = parts at exact ⊢
  cases parts with
  | finite negative significand exponent => simp only [exact, Option.getD_some]
  | infinite negative => cases exact
  | undefined => cases exact

theorem writes_ofCoordinate {number : Float} {value : Rat} (exact : IsExactly number value) :
    Writes number (.ofCoordinate value) :=
  ⟨_, number_eq exact, Literal.read?_coordinateText value⟩

end Svg

open Svg (Writes)

/-- A number is written as a short plain decimal.  The decimal is off by at most half a
thousandth, or it is the nearest whole number and off by at most about one billionth of the
number.  Zero has a minus exactly if the number is negative and at most half a thousandth. -/
theorem number_is_plain_decimal {number : Float} {value : Rat} (exact : IsExactly number value) :
    ∃ literal, Writes number literal ∧ literal.IsShort ∧
      (literal.IsNegativeZero ↔ value < 0 ∧ -(1 / 2000) ≤ value) ∧
      (|literal.value - value| ≤ 1 / 2000 ∨
        literal.value = roundHalfEven value ∧
          |literal.value - value| ≤ min (1 / 2) (|value| / 999999998)) :=
  ⟨_, Svg.writes_ofCoordinate exact, Literal.ofCoordinate_isShort value,
    Literal.ofCoordinate_isNegativeZero_iff, Literal.ofCoordinate_close value⟩

/-- The tolerance of a number of this size is far below half a thousandth. -/
theorem number_is_plain_decimal_small :
    IsExactly (-98765.4321) (-3393554406758469 / 34359738368) ∧
      ∃ literal, Writes (-98765.4321) literal ∧ literal.IsShort ∧ ¬literal.IsNegativeZero ∧
        |literal.value + 3393554406758469 / 34359738368| ≤ 1 / 2000 := by
  have exact : IsExactly (-98765.4321) (-3393554406758469 / 34359738368) := by
    rw [IsExactly]
    decide +kernel
  obtain ⟨literal, writes, short, negativeZero, close⟩ := number_is_plain_decimal exact
  refine ⟨exact, literal, writes, short, fun isZero => ?_, ?_⟩
  · norm_num at negativeZero
    exact negativeZero isZero
  · have size : |(-3393554406758469 / 34359738368 : Rat)| / 999999998 ≤ 1 / 2000 := by
      norm_num [abs_of_neg]
    rw [← sub_neg_eq_add, ← neg_div]
    rcases close with close | ⟨-, close⟩
    · exact close
    · exact close.trans ((min_le_right _ _).trans size)

/-- A small negative number is written as a zero with a minus, and of a number above one
million the places are lost. -/
theorem decimal_may_be_wrong :
    (∃ literal, Writes (-0.0001) literal ∧ literal.IsNegativeZero) ∧
      ∃ value literal, IsExactly 1000000.0009 value ∧ Writes 1000000.0009 literal ∧
        1 / 2000 < |literal.value - value| := by
  constructor
  · refine ⟨⟨true, ['0'], []⟩, ⟨"-0", ?_, rfl⟩, rfl, by decide +kernel⟩
    apply eq_ok_of_toOption
    decide +kernel
  · refine ⟨8589934599730941 / 8589934592, ⟨false, "1000000".toList, []⟩, ?_,
      ⟨"1000000", ?_, by decide +kernel⟩, ?_⟩
    · rw [IsExactly]
      decide +kernel
    · apply eq_ok_of_toOption
      decide +kernel
    · have value : (⟨false, "1000000".toList, []⟩ : Literal).value = 1000000 := by decide +kernel
      rw [value, abs_of_neg] <;> norm_num

/-- Numbers are written in their order: no decimal is larger than that of a larger number,
whether they are written as whole numbers or with places. -/
theorem written_numbers_keep_order {first second : Float} {firstValue secondValue : Rat}
    (firstExact : IsExactly first firstValue) (secondExact : IsExactly second secondValue)
    (ordered : firstValue ≤ secondValue) :
    ∃ firstLiteral secondLiteral, Writes first firstLiteral ∧ Writes second secondLiteral ∧
      firstLiteral.value ≤ secondLiteral.value :=
  ⟨_, _, Svg.writes_ofCoordinate firstExact, Svg.writes_ofCoordinate secondExact,
    Literal.ofCoordinate_mono ⟨_, Number.isExactly_iff.mp firstExact⟩
      ⟨_, Number.isExactly_iff.mp secondExact⟩ ordered⟩

/-- The smaller number counts as a whole number, and the larger one does not. -/
theorem written_numbers_keep_order_million :
    IsExactly 1000000.0009 (8589934599730941 / 8589934592) ∧
      IsExactly 1000000.0011 (268435456295279 / 268435456) ∧
      ∃ first second, Writes 1000000.0009 first ∧ Writes 1000000.0011 second ∧
        first.value ≤ second.value := by
  have firstExact : IsExactly 1000000.0009 (8589934599730941 / 8589934592) := by
    rw [IsExactly]
    decide +kernel
  have secondExact : IsExactly 1000000.0011 (268435456295279 / 268435456) := by
    rw [IsExactly]
    decide +kernel
  exact ⟨firstExact, secondExact,
    written_numbers_keep_order firstExact secondExact (by norm_num)⟩

end Schematic
