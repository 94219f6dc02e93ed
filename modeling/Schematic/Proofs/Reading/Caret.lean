import Mathlib.Data.List.TakeWhile
import Schematic.Proofs.Reading.Viable

/-!
# Where the caret of a report stands

The report on a text that is refused shows the text, and below all of it a line
with a caret, which stands in as many columns as there are characters in front of
the fault.  No line ends in front of a fault, so this is the column of the fault in
the first line of the text.  The caret is below the character itself if the text has
no second line; otherwise it is below the last line.
-/

namespace Schematic

/-! ## Lines -/

namespace Text

/-- The number of the line that holds the character at an offset, from zero; the
last line for the offset behind the text. -/
def rowOf (text : String) (position : Nat) : Nat :=
  (lines (String.ofList (text.toList.take (position + 1)))).length - 1

/-- The number of characters in front of an offset on the same line. -/
def columnOf (text : String) (position : Nat) : Nat :=
  ((text.toList.take position).reverse.takeWhile fun char => !isLineEnd char).length

theorem linesFrom_nil (line : List Char) :
    linesFrom line [] = if line.isEmpty then [] else [line.reverse] :=
  rfl

theorem linesFrom_inside {char : Char} (inside : isLineEnd char = false)
    (line rest : List Char) : linesFrom line (char :: rest) = linesFrom (char :: line) rest := by
  -- The equations of the single cases take long to derive, as their patterns overlap.
  rw [linesFrom.eq_def]
  split
  · next isEmpty => cases isEmpty
  · next isBoth =>
    cases isBoth
    exact absurd inside (by decide)
  · next isOther =>
    cases isOther
    simp [inside]

theorem linesFrom_end {char : Char} {rest : List Char} (ends : isLineEnd char = true)
    (alone : char = '\r' → ∀ behind, rest ≠ '\n' :: behind) (line : List Char) :
    linesFrom line (char :: rest) = line.reverse :: linesFrom [] rest := by
  rw [linesFrom.eq_def]
  split
  · next isEmpty => cases isEmpty
  · next behind isBoth =>
    cases isBoth
    exact absurd rfl (alone rfl behind)
  · next isOther =>
    cases isOther
    simp [ends]

theorem linesFrom_clean {clean : List Char} (noEnd : ∀ char ∈ clean, isLineEnd char = false)
    (line rest : List Char) :
    linesFrom line (clean ++ rest) = linesFrom (clean.reverse ++ line) rest := by
  induction clean generalizing line with
  | nil => rfl
  | cons char clean ih =>
      rw [List.forall_mem_cons] at noEnd
      rw [List.cons_append, linesFrom_inside noEnd.1, ih noEnd.2]
      simp

/-- A line feed parts the lines in front of it from those behind, also if it ends a
line together with a carriage return. -/
theorem linesFrom_lineFeed (line text rest : List Char) :
    linesFrom line (text ++ '\n' :: rest) =
      linesFrom line (text ++ ['\n']) ++ linesFrom [] rest := by
  fun_induction linesFrom line text with
  | case1 line | case2 line => exact linesFrom_end rfl (by simp) line
  | case3 line text ih => exact congrArg (line.reverse :: ·) ih
  | case4 line char text notBoth ends ih =>
      by_cases lone : char = '\r' ∧ text = []
      · obtain ⟨rfl, rfl⟩ := lone
        rfl
      · have alone : char = '\r' → ∀ more behind, text ++ '\n' :: more ≠ '\n' :: behind := by
          rintro rfl more behind feeds
          cases text with
          | nil => exact lone ⟨rfl, rfl⟩
          | cons second text =>
              obtain ⟨rfl, -⟩ := List.cons.inj feeds
              exact notBoth text rfl rfl
        rw [List.cons_append, List.cons_append, linesFrom_end ends (alone · rest),
          linesFrom_end ends (alone · []), ih]
        rfl
  | case5 line char text notBoth inside ih =>
      have inside : isLineEnd char = false := by simpa using inside
      rw [List.cons_append, List.cons_append, linesFrom_inside inside, linesFrom_inside inside, ih]

/-- A line ends where a character ends it, whatever is behind. -/
theorem exists_linesFrom_end {char : Char} (ends : isLineEnd char = true)
    (line rest : List Char) : ∃ others, linesFrom line (char :: rest) = line.reverse :: others := by
  by_cases both : char = '\r' ∧ ∃ behind, rest = '\n' :: behind
  · obtain ⟨rfl, behind, rfl⟩ := both
    exact ⟨linesFrom [] behind, rfl⟩
  · exact ⟨_, linesFrom_end ends (fun isReturn behind feeds => both ⟨isReturn, behind, feeds⟩) line⟩

theorem linesFrom_first {line text : List Char} (nonempty : line ≠ [] ∨ text ≠ []) :
    (linesFrom line text)[0]? =
      some (line.reverse ++ text.takeWhile fun char => !isLineEnd char) := by
  induction text generalizing line with
  | nil =>
      have filled : line.isEmpty = false := by simpa using nonempty
      simp [linesFrom_nil, filled]
  | cons char text ih =>
      cases ends : isLineEnd char with
      | true =>
          obtain ⟨others, split⟩ := exists_linesFrom_end ends line text
          simp [split, ends]
      | false =>
          rw [linesFrom_inside ends, ih (by simp)]
          simp [ends]

theorem length_linesFrom_singleton (line : List Char) (char : Char) :
    (linesFrom line [char]).length = 1 := by
  cases ends : isLineEnd char with
  | false => simp [linesFrom_inside ends, linesFrom_nil]
  | true => simp [linesFrom_end ends, linesFrom_nil]

section

variable {text : String} {position : Nat}

/-- No line ends in front of an offset. -/
def IsInFirstLine (text : String) (position : Nat) : Prop :=
  ∀ char ∈ text.toList.take position, isLineEnd char = false

theorem rowOf_eq_zero (first : IsInFirstLine text position) : rowOf text position = 0 := by
  rw [rowOf, lines, List.length_map, String.toList_ofList, List.take_add_one,
    linesFrom_clean first, List.append_nil]
  cases text.toList[position]? with
  | none =>
      rw [Option.toList_none, linesFrom_nil]
      split <;> rfl
  | some char => rw [Option.toList_some, length_linesFrom_singleton]

theorem columnOf_eq (first : IsInFirstLine text position) (inside : position ≤ text.length) :
    columnOf text position = position := by
  have clean : ∀ char ∈ (text.toList.take position).reverse, (!isLineEnd char) = true := by
    intro char member
    simp [first char (List.mem_reverse.mp member)]
  rw [columnOf, List.takeWhile_eq_self_iff.mpr clean, List.length_reverse, List.length_take,
    String.length_toList, Nat.min_eq_left inside]

theorem exists_first_line (nonempty : text ≠ "") :
    ∃ first, (lines text)[0]? = some first ∧ (lines (text ++ "\n"))[0]? = some first := by
  have filled : text.toList ≠ [] := by simpa using nonempty
  have sameStart : (text.toList ++ ['\n']).takeWhile (fun char => !isLineEnd char) =
      text.toList.takeWhile fun char => !isLineEnd char := by
    rw [List.takeWhile_append, List.takeWhile_cons_of_neg (by decide), List.append_nil]
    split
    · next whole => exact (List.takeWhile_prefix _ |>.eq_of_length whole).symm
    · rfl
  refine ⟨String.ofList (text.toList.takeWhile fun char => !isLineEnd char), ?_, ?_⟩
  · rw [lines, List.getElem?_map, linesFrom_first (.inr filled)]
    rfl
  · rw [lines, List.getElem?_map, String.toList_append, show "\n".toList = ['\n'] from rfl,
      linesFrom_first (.inr (by simp)), sameStart]
    rfl

/-- Behind a line feed the lines begin anew. -/
theorem lines_lineFeed (text behind : String) :
    lines (text ++ "\n" ++ behind) = lines (text ++ "\n") ++ lines behind := by
  simp only [lines, String.toList_append, show "\n".toList = ['\n'] from rfl, List.append_assoc,
    List.singleton_append]
  rw [linesFrom_lineFeed, List.map_append]

/-- A text in which no line ends is one line. -/
theorem lines_clean (noEnd : ∀ char ∈ text.toList, isLineEnd char = false) (nonempty : text ≠ "") :
    lines text = [text] := by
  have filled : text.toList ≠ [] := by simpa using nonempty
  rw [lines, ← List.append_nil text.toList, linesFrom_clean noEnd, linesFrom_nil]
  simp [filled]

theorem lines_clean_lineFeed (noEnd : ∀ char ∈ text.toList, isLineEnd char = false) :
    lines (text ++ "\n") = [text] := by
  have feed : linesFrom (text.toList.reverse ++ []) ['\n'] = [text.toList] := by
    simp [linesFrom_end (show isLineEnd '\n' = true from rfl), linesFrom_nil]
  rw [lines, String.toList_append, linesFrom_clean noEnd, show "\n".toList = ['\n'] from rfl, feed]
  simp

end

end Text

/-! ## Excerpts -/

namespace Diagnostic

/-- A caret below the column with the given number. -/
def caretLine (column : Nat) : String :=
  String.ofList (List.replicate column ' ') ++ "^"

/-- Below the row of an excerpt that shows the line with the character at an offset is
a row with nothing but a caret, in the column of the character. -/
def PointsAt (rows : List String) (source : String) (position : Nat) : Prop :=
  ∃ line, (Text.lines source)[Text.rowOf source position]? = some line ∧
    rows[Text.rowOf source position]? = some ("  " ++ line) ∧
    rows[Text.rowOf source position + 1]? =
      some ("  " ++ caretLine (Text.columnOf source position))

theorem lines_caretLine (column : Nat) : Text.lines (caretLine column) = [caretLine column] := by
  apply Text.lines_clean
  · simp only [caretLine, String.toList_append, String.toList_ofList, List.mem_append,
      List.mem_replicate]
    rintro char (⟨-, rfl⟩ | isCaret)
    · decide
    · obtain rfl : char = '^' := by simpa using isCaret
      decide
  · simp [caretLine]

/-- The caret is in the last row of an excerpt, whatever lines the source has. -/
theorem indentedLines_caretExcerpt (source : String) {position : Nat}
    (inside : position ≤ source.length) :
    Text.indentedLines (caretExcerpt source position) =
      Text.indentedLines (source ++ "\n") ++ ["  " ++ caretLine position] := by
  have clamped : clamp source position = position := by
    rw [clamp, Int.toNat_natCast, Nat.min_eq_left inside]
  have parted : caretExcerpt source position = source ++ "\n" ++ caretLine position := by
    rw [caretExcerpt, clamped, caretLine, String.append_assoc, String.append_assoc]
  rw [parted, Text.indentedLines, Text.lines_lineFeed, lines_caretLine, List.map_append]
  rfl

theorem pointsAt_iff {source : String} {position : Nat} (nonempty : source ≠ "")
    (inside : position ≤ source.length) (first : Text.IsInFirstLine source position) :
    PointsAt (Text.indentedLines (caretExcerpt source position)) source position ↔
      ∀ second, (Text.lines (source ++ "\n"))[1]? = some second → second = caretLine position := by
  obtain ⟨line, isFirst, stillFirst⟩ := Text.exists_first_line nonempty
  rw [PointsAt, indentedLines_caretExcerpt source inside, Text.rowOf_eq_zero first,
    Text.columnOf_eq first inside, Text.indentedLines]
  cases lines : Text.lines (source ++ "\n") with
  | nil => simp [lines] at stillFirst
  | cons start others =>
      obtain rfl : start = line := by simpa [lines] using stillFirst
      -- The row below the first one shows the second line, or else it is the caret.
      cases others with
      | nil => simp [isFirst]
      | cons second others => simp [isFirst, String.append_right_inj]

/-- The excerpt is a part of the report. -/
theorem exists_rows (diagnostic : Diagnostic) {source : String} (nonempty : source ≠ "")
    {position : Int} (hasSource : diagnostic.locus.source = some source)
    (hasPosition : diagnostic.locus.position = some position) :
    ∃ head foot, diagnostic.rows =
      head ++ "" :: Text.indentedLines (caretExcerpt source position) ++ foot := by
  have filled : filled? diagnostic.locus.source = some source := by
    simp [filled?, hasSource, nonempty]
  have excerpt : excerptLines diagnostic.locus =
      "" :: Text.indentedLines (caretExcerpt source position) := by
    rw [excerptLines, filled, hasPosition]
  rw [rows, excerpt, List.append_assoc]
  exact ⟨_, _, rfl⟩

end Diagnostic

namespace Reading

open Grammar

/-! ## Faults -/

theorem isLineEnd_eq_false {char : Char} (inNotation : IsNotationChar char) :
    Text.isLineEnd char = false := by
  rw [← Bool.not_eq_true]
  intro ends
  simp only [Text.isLineEnd, Bool.or_eq_true, beq_iff_eq, or_assoc] at ends
  unfold IsNotationChar at inNotation
  rcases ends with rfl | rfl | rfl | rfl | rfl | rfl | rfl | rfl | rfl | rfl <;>
    exact absurd inNotation (by decide)

/-- No line ends in front of a fault. -/
theorem isInFirstLine_of_refused {text : String} {fault : Fault}
    (refused : parse text = .error fault) (nested : nesting 0 text.toList ≤ 100) :
    ∃ position : Nat, fault.position = position ∧ position ≤ text.length ∧
      Text.IsInFirstLine text position := by
  have shallow : nesting 0 text.toList ≤ nestingLimit := Nat.le_trans nested (by decide)
  obtain ⟨nonnegative, inside, notDeep, -⟩ := reach_of_refused refused shallow
  obtain ⟨position, isPosition⟩ := Int.eq_ofNat_of_zero_le nonnegative
  refine ⟨position, isPosition, by omega, ?_⟩
  cases fails_of_refused refused with
  | @stuck passed rest last same leads stuck reached bounded ofPlace =>
      have named := fault.position_le_reach
      have before : position ≤ passed.length := by omega
      intro char member
      rw [same, List.take_append_of_le_length before] at member
      exact isLineEnd_eq_false (Spot.isNotationChar_of_run leads char (List.mem_of_mem_take member))
  | tooDeep passed same leads deep isDeep => exact absurd isDeep notDeep

open Diagnostic in
/-- The fault of a refused text is in the first line, and the report has a caret in the
column of the fault, in the row behind all lines.  So the caret is below the character
itself exactly if there is no second line, or if the second line looks like the caret;
a line feed at the end of the text begins a second line here, a carriage return does
not. -/
theorem caret_in_column_of_fault {text : String} {fault : Fault} (nonempty : text ≠ "")
    (nested : nesting 0 text.toList ≤ 100) (refused : parse text = .error fault) :
    ∃ (position : Nat) (head rows foot : List String),
      fault.position = position ∧ position ≤ text.length ∧
      Text.rowOf text position = 0 ∧ Text.columnOf text position = position ∧
      (fault.diagnostic text).report = Text.joinLines (head ++ "" :: rows ++ foot) ∧
      rows = Text.indentedLines (text ++ "\n") ++ ["  " ++ caretLine position] ∧
      (PointsAt rows text position ↔
        ∀ second, (Text.lines (text ++ "\n"))[1]? = some second → second = caretLine position) ∧
      ((∀ char ∈ text.toList, Text.isLineEnd char = false) → PointsAt rows text position) := by
  obtain ⟨position, isPosition, inside, first⟩ := isInFirstLine_of_refused refused nested
  have hasPosition : (fault.diagnostic text).locus.position = some (position : Int) :=
    congrArg some isPosition
  obtain ⟨head, foot, sameRows⟩ := exists_rows _ nonempty rfl hasPosition
  have points := pointsAt_iff nonempty inside first
  refine ⟨position, head, _, foot, isPosition, inside, Text.rowOf_eq_zero first,
    Text.columnOf_eq first inside, congrArg Text.joinLines sameRows,
    indentedLines_caretExcerpt text inside, points, fun noEnd => points.mpr ?_⟩
  intro second isSecond
  rw [Text.lines_clean_lineFeed noEnd] at isSecond
  cases isSecond

open Diagnostic in
/-- A space in a group, and a carriage return behind it. -/
theorem caret_in_column_of_fault_space :
    "(R1+R 2)\r" ≠ "" ∧ nesting 0 "(R1+R 2)\r".toList ≤ 100 ∧
      ∃ fault, parse "(R1+R 2)\r" = .error fault ∧ fault.position = 5 ∧
        ∃ rows head foot, (fault.diagnostic "(R1+R 2)\r").report =
            Text.joinLines (head ++ "" :: rows ++ foot) ∧
          rows = ["  (R1+R 2)", "       ^"] ∧ PointsAt rows "(R1+R 2)\r" 5 := by
  have nonempty : "(R1+R 2)\r" ≠ "" := by decide
  have nested : nesting 0 "(R1+R 2)\r".toList ≤ 100 := by decide
  have refused : parse "(R1+R 2)\r" = .error ⟨5, .unexpectedCharacter " "⟩ := by
    apply eq_error_of_faultOf?
    decide +kernel
  obtain ⟨position, head, rows, foot, isPosition, -, -, -, report, sameRows, points, -⟩ :=
    caret_in_column_of_fault nonempty nested refused
  obtain rfl : 5 = position := Int.ofNat.inj isPosition
  refine ⟨nonempty, nested, _, refused, rfl, rows, head, foot, report, ?_, points.mpr ?_⟩
  · rw [sameRows]
    decide +kernel
  · have alone : (Text.lines ("(R1+R 2)\r" ++ "\n"))[1]? = none := by decide +kernel
    intro second isSecond
    rw [alone] at isSecond
    cases isSecond

open Diagnostic in
/-- The first character of the first line is foreign, but the caret is below the second
line. -/
theorem caret_below_second_line :
    "x\nR1" ≠ "" ∧ nesting 0 "x\nR1".toList ≤ 100 ∧
      ∃ fault, parse "x\nR1" = .error fault ∧ fault.position = 0 ∧
        ∃ head rows foot, (fault.diagnostic "x\nR1").report =
            Text.joinLines (head ++ "" :: rows ++ foot) ∧
          rows = ["  x", "  R1", "  ^"] ∧ ¬PointsAt rows "x\nR1" 0 := by
  have refused : parse "x\nR1" = .error ⟨0, .unexpectedCharacter "x"⟩ := by
    apply eq_error_of_faultOf?
    decide +kernel
  have nonempty : "x\nR1" ≠ "" := by decide
  obtain ⟨head, foot, sameRows⟩ := exists_rows
    (Fault.diagnostic ⟨0, .unexpectedCharacter "x"⟩ "x\nR1") nonempty rfl rfl
  have shown : Text.indentedLines (caretExcerpt "x\nR1" 0) = ["  x", "  R1", "  ^"] := by
    decide +kernel
  refine ⟨nonempty, by decide, _, refused, rfl, head, _, foot, congrArg Text.joinLines sameRows,
    shown, ?_⟩
  rw [shown]
  rintro ⟨line, -, -, below⟩
  exact absurd below (by decide +kernel)

end Reading

end Schematic
