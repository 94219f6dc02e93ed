import Schematic.Proofs.Reading.Parsing

/-!
# Faults stand where a text stops being a document

A text is viable if documents begin with it.  The fault of a refused text speaks
of the end of its longest viable beginning: up to there the text can be completed,
and with one more character it cannot.
-/

namespace Schematic

namespace Reading

open Grammar

/-- Some document begins with these characters. -/
def IsViable (start : List Char) : Prop :=
  ∃ rest circuit, parse (String.ofList (start ++ rest)) = .ok circuit

/-! ## The characters of documents -/

/-- A letter or a digit of ASCII, or an operator. -/
def IsNotationChar (char : Char) : Prop :=
  char.isAlphanum = true ∨ operatorKind? char ≠ none

theorem Spot.isNotationChar_of_step {spot next : Spot} {char : Char}
    (leads : spot.step char = some next) : IsNotationChar char := by
  cases operator : operatorKind? char with
  | some kind => exact .inr (by simp [operator])
  | none =>
      by_cases alphanumeric : char.isAlphanum = true
      · exact .inl alphanumeric
      · obtain ⟨notBar, notDash, notPlus, notOpen, notClose⟩ :=
          operatorKind?_eq_none_iff.mp operator
        have noLetter : ElementKind.ofLetter? char = none := by
          cases found : ElementKind.ofLetter? char with
          | none => rfl
          | some kind =>
              obtain rfl := letter_of_ofLetter? found
              exact absurd (by cases kind <;> rfl) alphanumeric
        have stuck : spot.step char = none := by
          obtain ⟨stage, chained, depth⟩ := spot
          cases stage <;> cases depth <;>
            simp [step, enter, leave, isIdentifierChar, alphanumeric, notBar, notDash, notPlus,
              notOpen, notClose, noLetter]
        rw [stuck] at leads
        cases leads

theorem Spot.isNotationChar_of_run {spot last : Spot} {passed : List Char}
    (leads : spot.run passed = some last) : ∀ char ∈ passed, IsNotationChar char := by
  induction passed generalizing spot with
  | nil => simp
  | cons first rest ih =>
      obtain ⟨next, stepped, leads⟩ := Option.bind_eq_some_iff.mp leads
      intro char member
      rcases List.mem_cons.mp member with rfl | member
      · exact isNotationChar_of_step stepped
      · exact ih leads char member

/-! ## Texts and spots -/

/-- As many groups as are open somewhere the text nests. -/
theorem Spot.depth_le_nesting {passed : List Char} {last : Spot}
    (leads : Spot.first.run passed = some last) (rest : List Char) :
    last.depth ≤ nesting 0 (passed ++ rest) :=
  Nat.le_trans (le_nesting last.depth rest) (nesting_le_of_run leads rest)

/-- Parsing fails nowhere on a text that leads to the end of a document. -/
theorem not_fails_of_ends {text : List Char} {last : Spot} {fault : Fault}
    (leads : Spot.first.run text = some last) (ends : last.Ends)
    (nested : nesting 0 text ≤ nestingLimit) : ¬Fails .first 0 text fault := by
  intro fails
  cases fails with
  | @stuck passed rest middle same run stuck reached bounded ofPlace =>
      rw [same, Spot.run_append, run, Option.bind_some] at leads
      cases rest with
      | nil =>
          cases leads
          exact stuck ends
      | cons char rest =>
          rw [Spot.run, show middle.step char = none from stuck] at leads
          cases leads
  | @tooDeep passed rest middle same run deep isDeep =>
      have opened := Spot.depth_le_nesting run rest
      rw [← same] at opened
      omega

/-- The accepted texts are those that lead to the end of a document, up to the limit
of nesting. -/
theorem accepted_iff_run {text : List Char} (nested : nesting 0 text ≤ nestingLimit) :
    (∃ circuit, parse (String.ofList text) = .ok circuit) ↔
      ∃ last, Spot.first.run text = some last ∧ last.Ends := by
  have trail := parse_trail (String.ofList text)
  rw [String.toList_ofList] at trail
  rcases trail with ⟨circuit, last, parsed, leads, ends⟩ | ⟨fault, refused, fails⟩
  · exact ⟨fun _ => ⟨last, leads, ends⟩, fun _ => ⟨circuit, parsed⟩⟩
  · constructor
    · rintro ⟨circuit, parsed⟩
      rw [refused] at parsed
      cases parsed
    · rintro ⟨last, leads, ends⟩
      exact absurd fails (not_fails_of_ends leads ends nested)

/-- Whatever leads to a spot can be completed. -/
theorem isViable_of_run {start : List Char} {last : Spot}
    (leads : Spot.first.run start = some last) (nested : nesting 0 start ≤ nestingLimit) :
    IsViable start := by
  obtain ⟨final, completed, ends⟩ := last.run_completion
  have shallow : nesting 0 (start ++ last.completion) ≤ nesting 0 (start ++ []) :=
    nesting_append_le start (fun level => last.nesting_completion level) 0
  rw [List.append_nil] at shallow
  have whole : Spot.first.run (start ++ last.completion) = some final := by
    rw [Spot.run_append, leads]
    exact completed
  exact ⟨last.completion,
    (accepted_iff_run (Nat.le_trans shallow nested)).mpr ⟨final, whole, ends⟩⟩

/-- Whatever leads nowhere cannot be completed. -/
theorem not_isViable_of_stuck {passed rest : List Char} {last : Spot} {char : Char}
    (leads : Spot.first.run passed = some last) (stuck : last.Stuck (char :: rest)) :
    ¬IsViable (passed ++ [char]) := by
  rintro ⟨more, circuit, parsed⟩
  have trail := parse_trail (String.ofList (passed ++ [char] ++ more))
  rw [String.toList_ofList] at trail
  rcases trail with ⟨_, final, _, run, _⟩ | ⟨fault, refused, _⟩
  · rw [Spot.run_append, Spot.run_append, leads, Option.bind_some, Spot.run_singleton,
      show last.step char = none from stuck] at run
    cases run
  · rw [refused] at parsed
    cases parsed

/-! ## Faults -/

theorem fails_of_refused {text : String} {fault : Fault} (refused : parse text = .error fault) :
    Fails .first 0 text.toList fault := by
  rcases parse_trail text with ⟨circuit, last, parsed, _⟩ | ⟨other, refusedOther, fails⟩
  · rw [refused] at parsed
    cases parsed
  · rw [refused] at refusedOther
    cases refusedOther
    exact fails

/-- The place that a fault speaks of is the one that it names, or the one behind
it. -/
theorem Fault.position_le_reach (fault : Fault) : fault.position ≤ fault.reach := by
  unfold Fault.reach
  split <;> omega

/-- A fault that is not about depth speaks of the end of the longest viable
beginning. -/
theorem reach_of_refused {text : String} {fault : Fault} (refused : parse text = .error fault)
    (nested : nesting 0 text.toList ≤ nestingLimit) :
    0 ≤ fault.position ∧ fault.position ≤ text.length ∧ fault.cause ≠ .nestingTooDeep ∧
      ∃ reach : Nat, fault.reach = reach ∧ reach ≤ text.length ∧
        IsViable (text.toList.take reach) ∧
        (reach < text.length → ¬IsViable (text.toList.take (reach + 1))) := by
  cases fails_of_refused refused with
  | @stuck passed rest last same leads stuck reached bounded ofPlace =>
      rw [Nat.zero_add] at reached
      have named := fault.position_le_reach
      have length : text.length = passed.length + rest.length := by
        rw [← String.length_toList, same, List.length_append]
      have start : text.toList.take passed.length = passed := by
        rw [same, List.take_left]
      have notDeep : fault.cause ≠ .nestingTooDeep := by
        intro isDeep
        rw [isDeep] at ofPlace
        exact ofPlace
      have shallow : nesting 0 passed ≤ nestingLimit := by
        have opens : ∀ level, nesting level [] ≤ nesting level rest :=
          fun level => le_nesting level rest
        have opened := nesting_append_le passed opens 0
        rw [List.append_nil, ← same] at opened
        omega
      refine ⟨by omega, by omega, notDeep, passed.length, reached, by omega, ?_, ?_⟩
      · rw [start]
        exact isViable_of_run leads shallow
      · intro inside
        cases rest with
        | nil =>
            rw [length, List.length_nil] at inside
            omega
        | cons char rest =>
            have longer : text.toList.take (passed.length + 1) = passed ++ [char] := by
              rw [same, List.take_length_add_append]
              rfl
            rw [longer]
            exact not_isViable_of_stuck leads stuck
  | @tooDeep passed rest last same leads deep isDeep =>
      have opened := Spot.depth_le_nesting leads rest
      rw [← same] at opened
      omega

theorem cause_ne_unknownLetter {text : String} {fault : Fault}
    (refused : parse text = .error fault) (letter : String) :
    fault.cause ≠ .unknownLetter letter := by
  intro unknown
  cases fails_of_refused refused with
  | stuck passed same leads stuck reached bounded ofPlace =>
      rw [unknown] at ofPlace
      exact ofPlace
  | tooDeep passed same leads deep isDeep =>
      rw [unknown] at isDeep
      cases isDeep

/-! ## Open circuits -/

/-- The letter of an element is the one of open circuits only with an identifier
behind it. -/
theorem identifier_behind_open {count position : Nat} {input : List Char}
    (bounded : input.length ≤ count) {index : Nat} {token : Token}
    (found : (scan position 0 input).tokens[index]? = some token)
    (isLetter : token.kind = .elementLetter) (isOpen : token.value = some "O") :
    ∃ next, (scan position 0 input).tokens[index + 1]? = some next ∧
      next.kind = .identifier ∧ next.position = token.position + 1 := by
  induction count generalizing position input index with
  | zero =>
      obtain rfl : input = [] := List.length_eq_zero_iff.mp (Nat.le_zero.mp bounded)
      cases index with
      | zero =>
          cases found
          cases isLetter
      | succ index => cases found
  | succ count ih =>
      cases opening input with
      | nothing =>
          cases index with
          | zero =>
              cases found
              cases isLetter
          | succ index => cases found
      | operator rest operator =>
          rw [scan_operator operator] at found ⊢
          cases index with
          | zero =>
              cases found
              exact absurd isLetter (kind_ne_of_operatorKind? operator).2.2.1
          | succ index => exact ih (by simpa using bounded) found
      | openCircuit stops =>
          rw [scan_openCircuit stops] at found ⊢
          cases index with
          | zero =>
              cases found
              cases isLetter
          | succ index => exact ih (by simpa using bounded) found
      | @named kind identifier rest nonempty alphanumeric stops =>
          rw [scan_named nonempty alphanumeric stops] at found ⊢
          match index with
          | 0 =>
              cases found
              exact ⟨_, rfl, rfl, rfl⟩
          | 1 =>
              cases found
              cases isLetter
          | index + 2 =>
              have shorter : rest.length ≤ count := by
                simp only [List.length_cons, List.length_append] at bounded
                omega
              exact ih shorter found
      | @unnamed kind rest notOpen stops =>
          rw [scan_unnamed notOpen stops] at found ⊢
          cases index with
          | zero =>
              cases found
              have other : some (String.singleton kind.letter) ≠ some "O" := by
                cases kind <;> first | exact absurd rfl notOpen | decide
              exact absurd isOpen other
          | succ index => exact ih (by simpa using bounded) found
      | foreign rest noOperator noLetter =>
          rw [scan_foreign noOperator noLetter] at found
          cases found

/-! ## All texts -/

/-- The fault of a refused text whose parentheses nest at most a hundred deep marks
the first place where the text cannot go on to any document.  No letter of an
element is unknown, and the letter of open circuits is read as one only in front of
an identifier. -/
theorem fault_marks_first_impossible :
    (∀ text fault, nesting 0 text.toList ≤ 100 → parse text = .error fault →
      0 ≤ fault.position ∧ fault.position ≤ text.length ∧ fault.cause ≠ .nestingTooDeep ∧
        ∃ reach : Nat, fault.reach = reach ∧ reach ≤ text.length ∧
          IsViable (text.toList.take reach) ∧
          (reach < text.length → ¬IsViable (text.toList.take (reach + 1))) ∧
          (reach = text.length → ∀ circuit, parse text ≠ .ok circuit)) ∧
    (∀ text fault letter, parse text = .error fault → fault.cause ≠ .unknownLetter letter) ∧
    (∀ text index token, (tokenize text).tokens[index]? = some token →
      token.kind = .elementLetter → token.value = some "O" →
        ∃ next, (tokenize text).tokens[index + 1]? = some next ∧ next.kind = .identifier ∧
          next.position = token.position + 1) := by
  refine ⟨?_, ?_, ?_⟩
  · intro text fault nested refused
    have shallow : nesting 0 text.toList ≤ nestingLimit := Nat.le_trans nested (by decide)
    obtain ⟨nonnegative, inside, notDeep, reach, reached, bounded, viable, stuck⟩ :=
      reach_of_refused refused shallow
    refine ⟨nonnegative, inside, notDeep, reach, reached, bounded, viable, stuck, ?_⟩
    intro _ circuit parsed
    rw [refused] at parsed
    cases parsed
  · intro text fault letter refused
    exact cause_ne_unknownLetter refused letter
  · intro text index token found isLetter isOpen
    exact identifier_behind_open (Nat.le_refl _) found isLetter isOpen

/-- A single bar inside of two groups: a document can begin with everything up to it,
but behind it only a second bar goes on. -/
theorem fault_marks_first_impossible_lone_bar :
    nesting 0 "-(R1+(C2|L3))".toList ≤ 100 ∧
      parse "-(R1+(C2|L3))" = .error ⟨8, .loneBar⟩ ∧
      IsViable "-(R1+(C2|".toList ∧ ¬IsViable "-(R1+(C2|L".toList ∧
      (∀ letter, Cause.loneBar ≠ .unknownLetter letter) ∧
      (tokenize "O1").tokens[0]? = some ⟨.elementLetter, 0, some "O"⟩ ∧
      ∃ next, (tokenize "O1").tokens[1]? = some next ∧ next.kind = .identifier ∧
        next.position = 1 := by
  have nested : nesting 0 "-(R1+(C2|L3))".toList ≤ 100 := by decide
  have refused : parse "-(R1+(C2|L3))" = .error ⟨8, .loneBar⟩ := by
    apply eq_error_of_faultOf?
    decide +kernel
  have letter : (tokenize "O1").tokens[0]? = some ⟨.elementLetter, 0, some "O"⟩ := by
    decide +kernel
  obtain ⟨marks, known, named⟩ := fault_marks_first_impossible
  obtain ⟨-, -, -, reach, reached, -, viable, stuck, -⟩ := marks _ _ nested refused
  obtain rfl : reach = 9 := Int.ofNat.inj reached.symm
  have noMore := stuck (by decide)
  refine ⟨nested, refused, viable, noMore, ?_, letter, ?_⟩
  · exact fun other => known _ _ other refused
  · exact named "O1" 0 _ letter rfl rfl

end Reading

end Schematic
