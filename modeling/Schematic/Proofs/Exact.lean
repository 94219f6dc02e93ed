import Mathlib.Algebra.Order.BigOperators.Group.List
import Mathlib.Algebra.Order.Field.Rat
import Mathlib.Tactic.Linarith
import Schematic.Geometry

/-!
# Exact scalars

Over the rationals the operations of a scalar are those of an ordered field.
This file relates them to their usual names.
-/

namespace Schematic

namespace Scalar

@[simp]
theorem zero_eq : (zero : Rat) = 0 :=
  rfl

@[simp]
theorem half_eq (value : Rat) : half value = value / 2 :=
  rfl

@[simp]
theorem ofNat_eq (count : Nat) : (ofNat count : Rat) = count :=
  rfl

theorem tenths_eq (count : Nat) : (tenths count : Rat) = count / 10 :=
  rfl

@[simp]
theorem abs_eq (value : Rat) : Scalar.abs value = |value| := by
  change Number.magnitude value = |value|
  unfold Number.magnitude
  split
  · next negative => rw [abs_of_neg negative]
  · next positive => rw [abs_of_nonneg (not_lt.mp positive)]

@[simp]
theorem larger_eq (first second : Rat) : larger first second = max first second := by
  unfold larger
  split
  · next below => rw [max_eq_right (le_of_lt below)]
  · next above => rw [max_eq_left (not_lt.mp above)]

@[simp]
theorem smaller_eq (first second : Rat) : smaller first second = min first second := by
  unfold smaller
  split
  · next below => rw [min_eq_right (le_of_lt below)]
  · next above => rw [min_eq_left (not_lt.mp above)]

@[simp]
theorem same_self (value : Rat) : same value value = true := by
  simp [same]

@[simp]
theorem sum_eq (values : List Rat) : Scalar.sum values = values.sum := by
  exact List.sum_eq_foldl.symm

/-! ## Coordinates that count as the same -/

theorem tolerance_eq : (tolerance : Rat) = 1 / 10 ^ 9 := by
  decide +kernel

theorem tolerance_bounds : (0 : Rat) ≤ tolerance ∧ (tolerance : Rat) ≤ 1 := by
  decide +kernel

theorem same_iff {first second : Rat} :
    same first second = true ↔ |second - first| ≤ tolerance := by
  rw [same, Bool.or_eq_true, beq_iff_eq, decide_eq_true_iff, abs_eq]
  refine or_iff_right_of_imp ?_
  rintro rfl
  rw [sub_self, abs_zero]
  exact tolerance_bounds.1

theorem same_eq_false {first second : Rat} (apart : tolerance < |second - first|) :
    same first second = false := by
  rw [← Bool.not_eq_true, same_iff]
  exact not_le.mpr apart

theorem same_add_left (shift first second : Rat) :
    same (shift + first) (shift + second) = same first second := by
  rw [Bool.eq_iff_iff, same_iff, same_iff, add_sub_add_left_eq_sub]

theorem same_add_right (first second shift : Rat) :
    same (first + shift) (second + shift) = same first second := by
  rw [Bool.eq_iff_iff, same_iff, same_iff, add_sub_add_right_eq_sub]

theorem beq_add_right (first second shift : Rat) :
    (first + shift == second + shift) = (first == second) := by
  rw [Bool.eq_iff_iff, beq_iff_eq, beq_iff_eq, add_left_inj]

/-! ## Largest members -/

/-- The largest of a sequence bounds it, and is one of its members. -/
theorem largest_spec (first : Rat) (rest : List Rat) :
    largest first rest ∈ first :: rest ∧ ∀ value ∈ first :: rest, value ≤ largest first rest := by
  induction rest generalizing first with
  | nil => simp [largest]
  | cons second rest ih =>
      obtain ⟨member, bound⟩ := ih (max first second)
      have unfolded : largest first (second :: rest) = largest (max first second) rest := by
        rw [largest, List.foldl_cons, larger_eq, largest]
      rw [unfolded]
      have maxBound := bound (max first second) List.mem_cons_self
      constructor
      · rcases List.mem_cons.mp member with isMax | isRest
        · rw [isMax]
          rcases max_choice first second with same | same <;> simp [same]
        · exact List.mem_cons_of_mem first (List.mem_cons_of_mem second isRest)
      · intro value isValue
        rcases List.mem_cons.mp isValue with rfl | isValue
        · exact (le_max_left value second).trans maxBound
        · rcases List.mem_cons.mp isValue with rfl | isValue
          · exact (le_max_right first value).trans maxBound
          · exact bound value (List.mem_cons_of_mem _ isValue)

/-- The largest of some sizes is the size of a member. -/
theorem exists_eq_largest {β : Type} (size : β → Rat) (first : β) (rest : List β) :
    ∃ member ∈ first :: rest, size member = largest (size first) (rest.map size) := by
  obtain ⟨isSize, -⟩ := largest_spec (size first) (rest.map size)
  rw [← List.map_cons] at isSize
  exact List.mem_map.mp isSize

end Scalar

end Schematic
