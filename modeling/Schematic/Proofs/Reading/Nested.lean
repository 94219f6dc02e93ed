import Schematic.Proofs.Layout.Sizing
import Schematic.Proofs.Reading.Notation
import Schematic.Proofs.Reading.Shallow

/-!
# Sums inside of sums

The notation of a resistor in series with a group, in which a resistor is in series
with a group, and so on to a depth, shows where the limits of nesting are: such a
document is read up to a depth of 330, can be sized up to 329 and printed up to 195.
-/

namespace Schematic

namespace Circuit

/-- A resistor in series with a group, in which a resistor is in series with a group, and so
on to a depth. -/
def nested : (depth : Nat) → Circuit
  | 0 => .element ⟨.resistor, some "1"⟩
  | depth + 1 => .series [.element ⟨.resistor, some "1"⟩, nested depth]

theorem isPart_nested (depth : Nat) : (nested depth).IsPart := by
  have resistor : (Circuit.element ⟨.resistor, some "1"⟩).IsPart :=
    .element (.named (by decide) (by decide) (List.forall_mem_singleton.mpr rfl))
  induction depth with
  | zero => exact resistor
  | succ depth ih => exact .series (Nat.le_refl 2) (by simpa using ⟨resistor, ih⟩)

theorem nested_memberText (depth : Nat) : (nested depth).memberText = (nested depth).text := by
  cases depth <;> rfl

theorem nested_text_toList (depth : Nat) :
    (nested (depth + 1)).text.toList =
      ['(', 'R', '1', '+'] ++ ((nested depth).text.toList ++ [')']) := by
  have resistor : (Circuit.element ⟨.resistor, some "1"⟩).memberText.toList = ['R', '1'] := by
    decide
  rw [nested, series_text_toList, joined_cons _ _ _ (List.cons_ne_nil _ _), joined_singleton,
    nested_memberText, resistor]
  simp

theorem elements_nested (depth : Nat) : (nested depth).elements.length = depth + 1 := by
  induction depth with
  | zero => rfl
  | succ depth ih => simp [nested, elements, elementsOfAll, ih, Nat.add_comm]

theorem printingCalls_nested (depth : Nat) : (nested depth).printingCalls = 5 * depth + 5 := by
  induction depth with
  | zero => rfl
  | succ depth ih =>
      have asMember : (nested depth).operandCalls = 2 + (nested depth).printingCalls := by
        cases depth <;> rfl
      rw [nested, printingCalls, memberCalls_cons, memberCalls_cons, asMember, ih]
      simp only [operandCalls, printingCalls, memberCalls]
      omega

theorem sizingCalls_nested (depth : Nat) : (nested depth).sizingCalls = 3 * depth + 4 := by
  induction depth with
  | zero => rfl
  | succ depth ih =>
      simp only [nested, sizingCalls, partCalls, ih]
      omega

theorem isPrintable_nested (depth : Nat) : (nested depth).isPrintable = true ↔ depth ≤ 195 := by
  rw [isPrintable, printingCalls_nested, decide_eq_true_iff]
  simp only [callsAroundPrinting, callLimit]
  omega

theorem isSizable_nested (depth : Nat) : (nested depth).isSizable = true ↔ depth ≤ 329 := by
  rw [isSizable, sizingCalls_nested, decide_eq_true_iff]
  simp only [callsAroundSizing, callLimit]
  omega

end Circuit

namespace Reading

open Grammar

theorem nesting_nested (depth level : Nat) (rest : List Char) :
    nesting level ((Circuit.nested depth).text.toList ++ rest) ≤
      max (level + depth) (nesting level rest) := by
  induction depth generalizing level rest with
  | zero =>
      have resistor : (Circuit.nested 0).text.toList = ['R', '1'] := by decide
      rw [resistor, nesting_append_plain (by simp [IsPlain])]
      exact Nat.le_max_right _ _
  | succ depth ih =>
      have inside := ih (level + 1) (')' :: rest)
      rw [nesting_close, Nat.add_sub_cancel] at inside
      rw [Circuit.nested_text_toList, List.append_assoc, List.append_assoc]
      simp only [List.cons_append, List.nil_append]
      rw [nesting_open, nesting_plain (by simp [IsPlain]), nesting_plain (by simp [IsPlain]),
        nesting_plain (by simp [IsPlain])]
      omega

/-- The text of sums inside of sums is read, if there are no more than 330. -/
theorem parse_nested {depth : Nat} (few : depth ≤ nestingLimit) :
    parse (Circuit.nested depth).text = .ok (Circuit.nested depth) := by
  refine parse_of_document (document_text (.part (Circuit.isPart_nested depth))) ?_
  have nested := nesting_nested depth 0 []
  rw [List.append_nil] at nested
  simp only [nesting] at nested
  omega

theorem head?_nested (depth : Nat) :
    (Circuit.nested depth).text.toList.head? ≠ some '-' := by
  cases depth with
  | zero => decide
  | succ depth => simp [Circuit.nested_text_toList]

end Reading

end Schematic
