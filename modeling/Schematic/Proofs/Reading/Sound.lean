import Schematic.Proofs.Outcome
import Schematic.Proofs.Reading.Stream

/-!
# Whatever is read follows the grammar

This file goes through the readers from the elements up to whole documents and
shows for each of them that a result it returns is derived by the grammar from
the characters that it has passed, and that these characters open no more groups
inside of each other than the reader was allowed to open.
-/

namespace Schematic

namespace Reading

open Grammar

/-- What a reader returns is derived from the characters that it passes. -/
def IsSound {α : Type} (form : List Char → α → List Char → Prop) (reader : Reader α) : Prop :=
  ∀ ⦃position : Nat⦄ ⦃input : List Char⦄ ⦃value : α⦄ ⦃next : Cursor⦄,
    reader (cursorAt position input) = .ok (value, next) →
      ∃ (last : Nat) (rest : List Char), next = cursorAt last rest ∧ form input value rest

/-- Where an operator is found, the input begins with the sign, and the reader
goes on behind it. -/
def FindsSign (sign : List Char) (operator : OperatorReader) : Prop :=
  ∀ ⦃position : Nat⦄ ⦃input : List Char⦄ ⦃next : Cursor⦄,
    operator (cursorAt position input) = .ok (some next) →
      ∃ (last : Nat) (rest : List Char), next = cursorAt last rest ∧ input = sign ++ rest

/-- Chains of sound items are sound for every relation that is closed under
adding an item in front. -/
theorem readChain_sound {α : Type} {form : List Char → α → List Char → Prop}
    {chain : List Char → List α → List Char → Prop} {sign : List Char}
    {item : Reader α} {operator : OperatorReader}
    (itemSound : IsSound form item) (operatorFinds : FindsSign sign operator)
    (single : ∀ {input rest value}, form input value rest → chain input [value] rest)
    (extended : ∀ {input middle rest value values}, form input value (sign ++ middle) →
      chain middle values rest → chain input (value :: values) rest)
    (steps : Nat) : IsSound chain (readChain item operator steps) := by
  induction steps with
  | zero =>
      intro position input values next read
      rw [readChain] at read
      obtain ⟨⟨value, middle⟩, itemRead, read⟩ := exists_of_bind_eq_ok read
      obtain ⟨last, rest, rfl, derived⟩ := itemSound itemRead
      cases read
      exact ⟨last, rest, rfl, single derived⟩
  | succ steps ih =>
      intro position input values next read
      rw [readChain] at read
      obtain ⟨⟨value, middle⟩, itemRead, read⟩ := exists_of_bind_eq_ok read
      obtain ⟨last, rest, rfl, derived⟩ := itemSound itemRead
      obtain ⟨found, operatorRead, read⟩ := exists_of_bind_eq_ok read
      cases found with
      | none =>
          cases read
          exact ⟨last, rest, rfl, single derived⟩
      | some behind =>
          obtain ⟨afterSign, others, rfl, rfl⟩ := operatorFinds operatorRead
          obtain ⟨⟨values, final⟩, othersRead, read⟩ := exists_of_bind_eq_ok read
          obtain ⟨final, rest, rfl, othersDerived⟩ := ih othersRead
          cases read
          exact ⟨final, rest, rfl, extended derived othersDerived⟩

/-- A derivation that opens at most `depth` groups inside of each other: from no
level does it go further up, unless the rest does. -/
def Within {α : Type} (depth : Nat) (form : List Char → α → List Char → Prop) :
    List Char → α → List Char → Prop :=
  fun input value rest => form input value rest ∧
    ∀ level, nesting level input ≤ max (level + depth) (nesting level rest)

/-- A derivation and another one behind a plain sign stay within the depth of
both. -/
theorem nesting_le_chain {depth level : Nat} {sign input middle rest : List Char}
    (plain : ∀ char ∈ sign, IsPlain char)
    (first : nesting level input ≤ max (level + depth) (nesting level (sign ++ middle)))
    (others : nesting level middle ≤ max (level + depth) (nesting level rest)) :
    nesting level input ≤ max (level + depth) (nesting level rest) := by
  rw [nesting_append_plain plain] at first
  omega

/-! ## Operators -/

theorem readPlus_findsSign : FindsSign ['+'] readPlus := by
  intro position input next read
  obtain ⟨token, current, read⟩ := exists_of_bind_eq_ok read
  split at read
  · next isPlus =>
    obtain ⟨rest, rfl⟩ := input_of_current '+' rfl current isPlus
    cases read
    exact ⟨position + 1, rest, advance_operator rfl position rest, rfl⟩
  · cases read

theorem readParallel_findsSign : FindsSign ['|', '|'] readParallel := by
  intro position input next read
  obtain ⟨token, current, read⟩ := exists_of_bind_eq_ok read
  split at read
  · next isDouble => exact absurd isDouble (kind_ne_of_current current).2
  · split at read
    · next isPipe =>
      obtain ⟨rest, rfl⟩ := input_of_current '|' rfl current isPipe
      obtain ⟨second, currentSecond, read⟩ := exists_of_bind_eq_ok read
      rw [advance_operator rfl] at currentSecond read
      split at read
      · next isPipe =>
        obtain ⟨rest, rfl⟩ := input_of_current '|' rfl currentSecond isPipe
        cases read
        exact ⟨position + 1 + 1, rest, advance_operator rfl (position + 1) rest, rfl⟩
      · cases read
    · cases read

/-- Reading a token of the kind of an operator passes its sign. -/
theorem expect_operator (char : Char) {kind : TokenKind} (found : operatorKind? char = some kind)
    {position : Nat} {input : List Char} {expected : String} {next : Cursor}
    (read : (cursorAt position input).expect kind expected = .ok next) :
    ∃ rest, input = char :: rest ∧ next = cursorAt (position + 1) rest := by
  obtain ⟨token, current, read⟩ := exists_of_bind_eq_ok read
  split at read
  · next sameKind =>
    obtain ⟨rest, rfl⟩ := input_of_current char found current sameKind
    cases read
    exact ⟨rest, rfl, advance_operator found position rest⟩
  · cases read

/-! ## Groups -/

theorem collapsed_collapse (group : List Circuit → Circuit) {members : List Circuit}
    (nonempty : members ≠ []) : Collapsed group members (collapse group members) := by
  match members with
  | [] => exact absurd rfl nonempty
  | [_] => exact .single
  | _ :: _ :: _ => exact .several (by simp)

theorem readBranches_sound {depth : Nat} {circuit : Reader Circuit}
    (sound : IsSound (Within depth Subcircuit) circuit) :
    IsSound (Within depth ParallelGroup) (readBranches circuit) := by
  intro position input value next read
  obtain ⟨⟨branches, behind⟩, chainRead, read⟩ := exists_of_bind_eq_ok read
  have chainSound : IsSound (Within depth Branches)
      (readChain circuit readParallel (cursorAt position input).tokens.length) := by
    apply readChain_sound sound readParallel_findsSign
    · rintro input rest branch ⟨derived, nested⟩
      exact ⟨.last derived, nested⟩
    · rintro input middle rest branch branches ⟨derived, nested⟩ ⟨others, nestedOthers⟩
      exact ⟨.more derived others, fun level =>
        nesting_le_chain (by simp [IsPlain]) (nested level) (nestedOthers level)⟩
  obtain ⟨last, rest, rfl, derived, nested⟩ := chainSound chainRead
  cases read
  exact ⟨last, rest, rfl, .of derived (collapsed_collapse _ derived.ne_nil), nested⟩

theorem readMembers_sound {depth : Nat} {circuit : Reader Circuit}
    (sound : IsSound (Within depth Subcircuit) circuit) :
    IsSound (Within depth SeriesGroup) (readMembers circuit) := by
  intro position input value next read
  obtain ⟨⟨members, behind⟩, chainRead, read⟩ := exists_of_bind_eq_ok read
  have chainSound : IsSound (Within depth Members)
      (readChain (readBranches circuit) readPlus (cursorAt position input).tokens.length) := by
    apply readChain_sound (readBranches_sound sound) readPlus_findsSign
    · rintro input rest member ⟨derived, nested⟩
      exact ⟨.last derived, nested⟩
    · rintro input middle rest member members ⟨derived, nested⟩ ⟨others, nestedOthers⟩
      exact ⟨.more derived others, fun level =>
        nesting_le_chain (by simp [IsPlain]) (nested level) (nestedOthers level)⟩
  obtain ⟨last, rest, rfl, derived, nested⟩ := chainSound chainRead
  cases read
  exact ⟨last, rest, rfl, .of derived (collapsed_collapse _ derived.ne_nil), nested⟩

/-! ## Circuits -/

theorem kindOfValue?_letter (kind : ElementKind) :
    kindOfValue? (some (String.singleton kind.letter)) = some kind := by
  simp [kindOfValue?, ElementKind.ofLetter?_letter]

theorem readElement_named {kind : ElementKind} (notOpen : kind ≠ .openCircuit)
    {identifier rest : List Char} (nonempty : identifier ≠ [])
    (alphanumeric : ∀ char ∈ identifier, char.isAlphanum = true) (stops : Stops rest)
    (position : Nat) :
    readElement (letterToken position kind)
        (cursorAt position (kind.letter :: (identifier ++ rest))).advance =
      .ok (.element ⟨kind, some (String.ofList identifier)⟩,
        cursorAt (position + 1 + identifier.length) rest) := by
  simp only [readElement, letterToken, kindOfValue?_letter,
    current_identifier nonempty alphanumeric stops, ok_bind, if_neg notOpen, if_true,
    advance_identifier nonempty alphanumeric stops]
  rfl

/-- An element is read only from a letter with an identifier behind it. -/
theorem form_of_readElement {kind : ElementKind} {position : Nat} {circuit : Circuit}
    {cursor next : Cursor}
    (read : readElement (letterToken position kind) cursor = .ok (circuit, next)) :
    kind ≠ .openCircuit ∧
      ∃ token, cursor.current = .ok token ∧ token.kind = .identifier := by
  simp only [readElement, letterToken, kindOfValue?_letter] at read
  obtain ⟨token, current, read⟩ := exists_of_bind_eq_ok read
  split at read
  · cases read
  · next notOpen =>
    split at read
    · next isIdentifier => exact ⟨notOpen, token, current, isIdentifier⟩
    · cases read

/-- Behind an opening parenthesis a group is read, if one more may be opened. -/
theorem readCircuit_open (depth position : Nat) (input : List Char) :
    readCircuit (depth + 1) (cursorAt position ('(' :: input)) = (do
      let next ← (cursorAt (position + 1) input).current
      if next.kind = .closeGroup then throw ⟨position, .emptyGroup⟩
      else
        let (group, cursor) ← readMembers (readCircuit depth) (cursorAt (position + 1) input)
        let cursor ← cursor.expect .closeGroup "'+', '||' or ')'"
        return (group, cursor)) := by
  rw [readCircuit.eq_def]
  have found : operatorKind? '(' = some .openGroup := rfl
  simp only [current_operator found, advance_operator found, ok_bind]

theorem readCircuit_open_zero (position : Nat) (input : List Char) :
    readCircuit 0 (cursorAt position ('(' :: input)) =
      .error ⟨position + 1, .nestingTooDeep⟩ := by
  rw [readCircuit.eq_def]
  have found : operatorKind? '(' = some .openGroup := rfl
  simp only [current_operator found, advance_operator found, ok_bind]
  rfl

theorem readCircuit_open_sound {depth : Nat}
    (sound : IsSound (Within depth Subcircuit) (readCircuit depth)) {position : Nat}
    {input : List Char} {circuit : Circuit} {next : Cursor}
    (read : readCircuit (depth + 1) (cursorAt position ('(' :: input)) = .ok (circuit, next)) :
    ∃ (last : Nat) (rest : List Char), next = cursorAt last rest ∧
      Within (depth + 1) Subcircuit ('(' :: input) circuit rest := by
  rw [readCircuit_open] at read
  obtain ⟨second, -, read⟩ := exists_of_bind_eq_ok read
  split at read
  · cases read
  · obtain ⟨⟨group, behind⟩, groupRead, read⟩ := exists_of_bind_eq_ok read
    obtain ⟨last, middle, rfl, derived, nested⟩ := readMembers_sound sound groupRead
    obtain ⟨final, closed, read⟩ := exists_of_bind_eq_ok read
    obtain ⟨rest, rfl, rfl⟩ := expect_operator ')' rfl closed
    cases read
    refine ⟨last + 1, rest, rfl, .group derived, fun level => ?_⟩
    have inside := nested (level + 1)
    rw [nesting_close, Nat.add_sub_cancel] at inside
    rw [nesting_open]
    omega

/-- No operator but an opening parenthesis begins a circuit. -/
theorem open_of_readCircuit {depth position : Nat} {char : Char} {kind : TokenKind}
    (found : operatorKind? char = some kind) {rest : List Char} {result : Circuit × Cursor}
    (read : readCircuit depth (cursorAt position (char :: rest)) = .ok result) : char = '(' := by
  obtain ⟨-, notOpen, notLetter, -, -⟩ := kind_ne_of_operatorKind? found
  by_cases isGroup : kind = .openGroup
  · subst isGroup
    exact operatorKind?_injective found rfl
  · rw [readCircuit.eq_def] at read
    simp only [current_operator found, ok_bind] at read
    cases read

theorem elementForm_within {depth : Nat} {input rest : List Char} {element : Element}
    (form : ElementForm input element rest) :
    Within depth Subcircuit input (.element element) rest := by
  refine ⟨.element form, fun level => ?_⟩
  rw [form.nesting_eq level]
  exact Nat.le_max_right _ _

/-- One level of groups: circuits are read as the grammar says if those with one
group less around them are. -/
theorem readCircuit_sound_step {depth : Nat}
    (sound : ∀ smaller, depth = smaller + 1 →
      IsSound (Within smaller Subcircuit) (readCircuit smaller)) :
    IsSound (Within depth Subcircuit) (readCircuit depth) := by
  intro position input circuit next read
  cases opening input with
  | nothing =>
      rw [readCircuit.eq_def] at read
      cases read
  | operator rest found =>
      obtain rfl := open_of_readCircuit found read
      cases depth with
      | zero =>
          rw [readCircuit_open_zero] at read
          cases read
      | succ depth => exact readCircuit_open_sound (sound depth rfl) read
  | openCircuit stops =>
      rw [readCircuit.eq_def] at read
      simp only [current_openCircuit stops, advance_openCircuit stops, ok_bind] at read
      cases read
      exact ⟨_, _, rfl, elementForm_within (.openCircuit stops)⟩
  | named nonempty alphanumeric stops =>
      rw [readCircuit.eq_def] at read
      simp only [current_named nonempty alphanumeric stops, ok_bind] at read
      have notOpen := (form_of_readElement read).1
      have expected := readElement_named notOpen nonempty alphanumeric stops position
      obtain ⟨rfl, rfl⟩ := Prod.mk.inj (Except.ok.inj (read.symm.trans expected))
      exact ⟨_, _, rfl, elementForm_within (.named notOpen nonempty alphanumeric stops)⟩
  | unnamed notOpen stops =>
      rw [readCircuit.eq_def] at read
      simp only [current_unnamed notOpen stops, advance_unnamed notOpen stops, ok_bind] at read
      obtain ⟨-, second, currentSecond, isIdentifier⟩ := form_of_readElement read
      exact absurd isIdentifier (kind_ne_of_current currentSecond).1
  | foreign rest noOperator noLetter =>
      rw [readCircuit.eq_def] at read
      simp only [current_foreign noOperator noLetter] at read
      cases read

theorem readCircuit_sound (depth : Nat) :
    IsSound (Within depth Subcircuit) (readCircuit depth) := by
  induction depth with
  | zero => exact readCircuit_sound_step (by simp)
  | succ depth ih =>
      apply readCircuit_sound_step
      rintro smaller same
      obtain rfl := Nat.succ.inj same
      exact ih

/-! ## Documents -/

theorem sign_of_linkKind? {kind : TokenKind} {link : LinkKind}
    (found : linkKind? kind = some link) : operatorKind? link.sign = some kind := by
  unfold linkKind? at found
  split at found <;> cases found <;> rfl

theorem readLinks_sound {depth : Nat} {circuit : Reader Circuit}
    (sound : IsSound (Within depth Subcircuit) circuit) (steps : Nat) {position : Nat}
    {input : List Char} {links : List (Link Circuit)} {next : Cursor}
    (read : readLinks circuit steps (cursorAt position input) = .ok (links, next)) :
    ∃ (last : Nat) (rest : List Char), next = cursorAt last rest ∧
      (links = [] ∧ rest = input ∨ Within depth Links input links rest) := by
  induction steps generalizing position input links next with
  | zero =>
      cases read
      exact ⟨position, input, rfl, .inl ⟨rfl, rfl⟩⟩
  | succ steps ih =>
      obtain ⟨token, current, read⟩ := exists_of_bind_eq_ok read
      split at read
      · cases read
        exact ⟨position, input, rfl, .inl ⟨rfl, rfl⟩⟩
      · next kind found =>
        have operator := sign_of_linkKind? found
        obtain ⟨behindSign, rfl⟩ := input_of_current kind.sign operator current rfl
        rw [advance_operator operator] at read
        obtain ⟨⟨target, behind⟩, targetRead, read⟩ := exists_of_bind_eq_ok read
        obtain ⟨middle, others, rfl, derived, nested⟩ := sound targetRead
        obtain ⟨⟨more, final⟩, othersRead, read⟩ := exists_of_bind_eq_ok read
        obtain ⟨last, rest, rfl, derivedOthers⟩ := ih othersRead
        cases read
        refine ⟨last, rest, rfl, .inr ?_⟩
        rcases derivedOthers with ⟨rfl, rfl⟩ | ⟨derivedOthers, nestedOthers⟩
        · refine ⟨.last derived, fun level => ?_⟩
          rw [nesting_plain (isPlain_sign kind)]
          exact nested level
        · refine ⟨.more derived derivedOthers, fun level => ?_⟩
          rw [nesting_plain (isPlain_sign kind)]
          have behindTarget := nested level
          have behindLinks := nestedOthers level
          omega

/-- The end of the input is expected only where nothing is left. -/
theorem input_of_expect_endOfInput {position : Nat} {input : List Char} {expected : String}
    {next : Cursor}
    (read : (cursorAt position input).expect .endOfInput expected = .ok next) : input = [] := by
  obtain ⟨token, current, read⟩ := exists_of_bind_eq_ok read
  split at read
  · next isEnd => exact input_of_current_endOfInput current isEnd
  · cases read

/-- A text that is read as a circuit derives it as a document, and its groups are
nested no deeper than the limit. -/
theorem document_of_parse {text : String} {circuit : Circuit}
    (parsed : parse text = .ok circuit) :
    Document text.toList circuit ∧ nesting 0 text.toList ≤ nestingLimit := by
  obtain ⟨⟨root, behind⟩, rootRead, parsed⟩ := exists_of_bind_eq_ok parsed
  obtain ⟨final, ended, parsed⟩ := exists_of_bind_eq_ok parsed
  cases parsed
  rw [ofStream_tokenize] at rootRead
  obtain ⟨token, current, rootRead⟩ := exists_of_bind_eq_ok rootRead
  split at rootRead
  · next isLink =>
    obtain ⟨⟨links, afterLinks⟩, linksRead, rootRead⟩ := exists_of_bind_eq_ok rootRead
    cases rootRead
    obtain ⟨last, rest, rfl, derived⟩ := readLinks_sound (readCircuit_sound _) _ linksRead
    obtain rfl := input_of_expect_endOfInput ended
    rcases derived with ⟨rfl, isEmpty⟩ | ⟨derived, nested⟩
    · -- A text that begins with a link has at least one.
      rw [← isEmpty] at current
      cases current
      cases isLink
    · exact ⟨.twoport derived, by simpa [nesting] using nested 0⟩
  · obtain ⟨last, rest, rfl, derived, nested⟩ := readCircuit_sound _ rootRead
    obtain rfl := input_of_expect_endOfInput ended
    exact ⟨.circuit derived, by simpa [nesting] using nested 0⟩

end Reading

end Schematic
