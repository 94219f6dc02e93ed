import Mathlib.Algebra.Order.Field.Rat
import Mathlib.Tactic.Linarith
import Schematic.Number.Rounding

/-!
# Nearest whole numbers

Rounding goes to a nearest whole number, and it keeps the order of values.
-/

namespace Schematic

namespace Number

/-- Rounding moves a value by at most one half. -/
theorem roundHalfEven_close (value : Rat) :
    value - 1 / 2 ≤ roundHalfEven value ∧ roundHalfEven value ≤ value + 1 / 2 := by
  have low := Rat.floor_le value
  have high := Rat.lt_floor_add_one value
  push_cast at high
  unfold roundHalfEven
  dsimp only
  split
  · constructor <;> linarith
  · split
    · push_cast
      constructor <;> linarith
    · split
      · constructor <;> linarith
      · push_cast
        constructor <;> linarith

/-- Rounding keeps the order of values.  Two values that it could exchange are both in the
middle between the same whole numbers, so they are equal. -/
theorem roundHalfEven_mono {first second : Rat} (ordered : first ≤ second) :
    roundHalfEven first ≤ roundHalfEven second := by
  by_contra exchanged
  have apart : (roundHalfEven second : Rat) + 1 ≤ roundHalfEven first := by
    exact_mod_cast not_le.mp exchanged
  have above := (roundHalfEven_close first).2
  have below := (roundHalfEven_close second).1
  obtain rfl : first = second := le_antisymm ordered (by linarith)
  exact exchanged le_rfl

end Number

end Schematic
