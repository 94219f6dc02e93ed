import Schematic.Proofs.Reading.Grammar
import Schematic.Reading.Parse

/-!
# Reading at a place of a text

A cursor of a reader holds tokens, while the grammar speaks of characters.  The
two meet at the boundaries of tokens: `cursorAt position input` is the cursor
of a reader that has `input` left to read from the offset `position` on.  This
file says what a reader sees there, by the ways in which a text can begin, and
where it is behind the next token.
-/

namespace Schematic

namespace Reading

open Grammar

/-- The cursor of a reader in front of the characters `input`, the first of which
has the offset `position`. -/
def cursorAt (position : Nat) (input : List Char) : Cursor where
  tokens := (scan position 0 input).tokens
  fault := (scan position 0 input).fault
  offset := position

theorem ofStream_tokenize (text : String) :
    Cursor.ofStream (tokenize text) = cursorAt 0 text.toList :=
  rfl

/-! ## How a text can begin -/

/-- The ways in which the rest of a text can begin. -/
inductive Opening : List Char → Prop where
  | nothing : Opening []
  | operator {char : Char} {kind : TokenKind} (rest : List Char) :
      operatorKind? char = some kind → Opening (char :: rest)
  | openCircuit {rest : List Char} : Stops rest → Opening ('O' :: rest)
  | named {kind : ElementKind} {identifier rest : List Char} : identifier ≠ [] →
      (∀ char ∈ identifier, char.isAlphanum = true) → Stops rest →
      Opening (kind.letter :: (identifier ++ rest))
  | unnamed {kind : ElementKind} {rest : List Char} : kind ≠ .openCircuit →
      Stops rest → Opening (kind.letter :: rest)
  | foreign {char : Char} (rest : List Char) : operatorKind? char = none →
      ElementKind.ofLetter? char = none → Opening (char :: rest)

theorem letter_of_ofLetter? {char : Char} {kind : ElementKind}
    (found : ElementKind.ofLetter? char = some kind) : char = kind.letter := by
  unfold ElementKind.ofLetter? at found
  split at found <;> cases found <;> rfl

theorem operatorKind?_letter (kind : ElementKind) : operatorKind? kind.letter = none := by
  cases kind <;> rfl

/-- The kinds of tokens that are no operators. -/
theorem kind_ne_of_operatorKind? {char : Char} {kind : TokenKind}
    (found : operatorKind? char = some kind) :
    kind ≠ .endOfInput ∧ kind ≠ .openCircuit ∧ kind ≠ .elementLetter ∧ kind ≠ .identifier ∧
      kind ≠ .doublePipe := by
  unfold operatorKind? at found
  split at found <;> cases found <;> decide

theorem operatorKind?_injective {first second : Char} {kind : TokenKind}
    (foundFirst : operatorKind? first = some kind)
    (foundSecond : operatorKind? second = some kind) : first = second := by
  unfold operatorKind? at foundFirst foundSecond
  split at foundFirst <;> cases foundFirst <;> split at foundSecond <;>
    first | rfl | cases foundSecond

theorem stops_dropWhile (text : List Char) : Stops (text.dropWhile isIdentifierChar) := by
  intro char head
  have stopped := List.head?_dropWhile_not isIdentifierChar text
  simp only [Option.mem_def] at head
  simpa [head, isIdentifierChar] using stopped

/-- Every text begins in one of these ways. -/
theorem opening (input : List Char) : Opening input := by
  cases input with
  | nil => exact .nothing
  | cons char rest =>
      cases operator : operatorKind? char with
      | some kind => exact .operator rest operator
      | none =>
          cases letter : ElementKind.ofLetter? char with
          | none => exact .foreign rest operator letter
          | some kind =>
              obtain rfl := letter_of_ofLetter? letter
              have split := List.takeWhile_append_dropWhile (p := isIdentifierChar) (l := rest)
              have stops := stops_dropWhile rest
              by_cases empty : rest.takeWhile isIdentifierChar = []
              · rw [empty, List.nil_append] at split
                rw [split] at stops
                by_cases isOpen : kind = .openCircuit
                · subst kind
                  exact .openCircuit stops
                · exact .unnamed isOpen stops
              · rw [← split]
                exact .named empty
                  (fun char mem => List.all_eq_true.mp List.all_takeWhile char mem)
                  stops

/-! ## The stream behind an opening -/

/-- The characters of an identifier that has been read are passed over. -/
theorem scan_skip (position : Nat) (identifier rest : List Char) :
    scan position identifier.length (identifier ++ rest) =
      scan (position + identifier.length) 0 rest := by
  induction identifier generalizing position with
  | nil => rfl
  | cons char identifier ih =>
      simp only [List.length_cons, List.cons_append, scan]
      rw [ih (position + 1)]
      congr 1
      omega

theorem scan_operator {char : Char} {kind : TokenKind} (found : operatorKind? char = some kind)
    (position : Nat) (rest : List Char) :
    scan position 0 (char :: rest) =
      (scan (position + 1) 0 rest).push ⟨kind, position, none⟩ := by
  rw [scan, found]

theorem takeWhile_of_stops {rest : List Char} (stops : Stops rest) :
    rest.takeWhile isIdentifierChar = [] := by
  cases rest with
  | nil => rfl
  | cons char rest =>
      have other : isIdentifierChar char = false := (stops_cons char rest).mp stops
      simp [other]

theorem scan_openCircuit {rest : List Char} (stops : Stops rest) (position : Nat) :
    scan position 0 ('O' :: rest) =
      (scan (position + 1) 0 rest).push ⟨.openCircuit, position, none⟩ := by
  rw [scan]
  simp [takeWhile_of_stops stops, operatorKind?, ElementKind.ofLetter?]

/-- The token of the letter of a kind. -/
def letterToken (position : Nat) (kind : ElementKind) : Token :=
  ⟨.elementLetter, position, some (String.singleton kind.letter)⟩

theorem scan_unnamed {kind : ElementKind} {rest : List Char} (notOpen : kind ≠ .openCircuit)
    (stops : Stops rest) (position : Nat) :
    scan position 0 (kind.letter :: rest) =
      (scan (position + 1) 0 rest).push (letterToken position kind) := by
  have notO : kind.letter ≠ 'O' := by
    cases kind <;> simp_all [ElementKind.letter]
  rw [scan, operatorKind?_letter]
  simp [takeWhile_of_stops stops, ElementKind.ofLetter?_letter, notO, letterToken]

theorem scan_named {kind : ElementKind} {identifier rest : List Char}
    (nonempty : identifier ≠ [])
    (alphanumeric : ∀ char ∈ identifier, char.isAlphanum = true) (stops : Stops rest)
    (position : Nat) :
    scan position 0 (kind.letter :: (identifier ++ rest)) =
      ((scan (position + 1 + identifier.length) 0 rest).push
        ⟨.identifier, (position + 1 : Nat), some (String.ofList identifier)⟩).push
          (letterToken position kind) := by
  have allMembers : ∀ char ∈ identifier, isIdentifierChar char = true := alphanumeric
  have run : (identifier ++ rest).takeWhile isIdentifierChar = identifier := by
    rw [List.takeWhile_append_of_pos allMembers, takeWhile_of_stops stops, List.append_nil]
  rw [scan, operatorKind?_letter]
  simp [run, nonempty, ElementKind.ofLetter?_letter, letterToken, scan_skip]

theorem scan_foreign {char : Char} (noOperator : operatorKind? char = none)
    (noLetter : ElementKind.ofLetter? char = none) (position : Nat) (rest : List Char) :
    scan position 0 (char :: rest) =
      ⟨[], some ⟨position, .unexpectedCharacter (String.singleton char)⟩⟩ := by
  rw [scan, noOperator]
  simp [noLetter]

/-! ## What a reader sees -/

theorem current_operator {char : Char} {kind : TokenKind}
    (found : operatorKind? char = some kind) (position : Nat) (rest : List Char) :
    (cursorAt position (char :: rest)).current = .ok ⟨kind, position, none⟩ := by
  rw [cursorAt, scan_operator found]
  rfl

theorem advance_operator {char : Char} {kind : TokenKind}
    (found : operatorKind? char = some kind) (position : Nat) (rest : List Char) :
    (cursorAt position (char :: rest)).advance = cursorAt (position + 1) rest := by
  have notEnd : kind ≠ .endOfInput := (kind_ne_of_operatorKind? found).1
  rw [cursorAt, scan_operator found]
  simp [Cursor.advance, TokenStream.push, notEnd, cursorAt, Token.finish, Token.width]

theorem current_openCircuit {rest : List Char} (stops : Stops rest) (position : Nat) :
    (cursorAt position ('O' :: rest)).current = .ok ⟨.openCircuit, position, none⟩ := by
  rw [cursorAt, scan_openCircuit stops]
  rfl

theorem advance_openCircuit {rest : List Char} (stops : Stops rest) (position : Nat) :
    (cursorAt position ('O' :: rest)).advance = cursorAt (position + 1) rest := by
  rw [cursorAt, scan_openCircuit stops]
  simp [Cursor.advance, TokenStream.push, cursorAt, Token.finish, Token.width]

theorem current_unnamed {kind : ElementKind} {rest : List Char} (notOpen : kind ≠ .openCircuit)
    (stops : Stops rest) (position : Nat) :
    (cursorAt position (kind.letter :: rest)).current = .ok (letterToken position kind) := by
  rw [cursorAt, scan_unnamed notOpen stops]
  rfl

theorem advance_unnamed {kind : ElementKind} {rest : List Char} (notOpen : kind ≠ .openCircuit)
    (stops : Stops rest) (position : Nat) :
    (cursorAt position (kind.letter :: rest)).advance = cursorAt (position + 1) rest := by
  rw [cursorAt, scan_unnamed notOpen stops]
  simp [Cursor.advance, TokenStream.push, cursorAt, Token.finish, Token.width, letterToken]

section Named

variable {kind : ElementKind} {identifier rest : List Char} (nonempty : identifier ≠ [])
  (alphanumeric : ∀ char ∈ identifier, char.isAlphanum = true) (stops : Stops rest)
  (position : Nat)

include nonempty alphanumeric stops

theorem current_named :
    (cursorAt position (kind.letter :: (identifier ++ rest))).current =
      .ok (letterToken position kind) := by
  rw [cursorAt, scan_named nonempty alphanumeric stops]
  rfl

/-- Behind the letter of an element stands its identifier. -/
theorem current_identifier :
    (cursorAt position (kind.letter :: (identifier ++ rest))).advance.current =
      .ok ⟨.identifier, (position + 1 : Nat), some (String.ofList identifier)⟩ := by
  rw [cursorAt, scan_named nonempty alphanumeric stops]
  rfl

theorem advance_identifier :
    (cursorAt position (kind.letter :: (identifier ++ rest))).advance.advance =
      cursorAt (position + 1 + identifier.length) rest := by
  have positive : 0 < identifier.length := List.length_pos_iff.mpr nonempty
  rw [cursorAt, scan_named nonempty alphanumeric stops]
  simp [Cursor.advance, TokenStream.push, cursorAt, Token.finish, Token.width, letterToken]
  omega

end Named

theorem current_foreign {char : Char} (noOperator : operatorKind? char = none)
    (noLetter : ElementKind.ofLetter? char = none) (position : Nat) (rest : List Char) :
    (cursorAt position (char :: rest)).current =
      .error ⟨position, .unexpectedCharacter (String.singleton char)⟩ := by
  rw [cursorAt, scan_foreign noOperator noLetter]
  rfl

/-- The tokens that can be next at a boundary: the end of the input where nothing
is left, an operator where its sign stands, or the beginning of an element. -/
theorem kind_of_current {position : Nat} {input : List Char} {token : Token}
    (current : (cursorAt position input).current = .ok token) :
    (input = [] ∧ token.kind = .endOfInput) ∨
    (∃ char rest, input = char :: rest ∧ operatorKind? char = some token.kind) ∨
    token.kind = .openCircuit ∨ token.kind = .elementLetter := by
  cases opening input with
  | nothing =>
      cases current
      exact .inl ⟨rfl, rfl⟩
  | @operator char kind rest found =>
      rw [current_operator found] at current
      cases current
      exact .inr (.inl ⟨char, rest, rfl, found⟩)
  | openCircuit stops =>
      rw [current_openCircuit stops] at current
      cases current
      exact .inr (.inr (.inl rfl))
  | named nonempty alphanumeric stops =>
      rw [current_named nonempty alphanumeric stops] at current
      cases current
      exact .inr (.inr (.inr rfl))
  | unnamed notOpen stops =>
      rw [current_unnamed notOpen stops] at current
      cases current
      exact .inr (.inr (.inr rfl))
  | foreign rest noOperator noLetter =>
      rw [current_foreign noOperator noLetter] at current
      cases current

/-- If the next token is an operator, then the input begins with its sign. -/
theorem input_of_current (char : Char) {kind : TokenKind}
    (found : operatorKind? char = some kind) {position : Nat} {input : List Char}
    {token : Token} (current : (cursorAt position input).current = .ok token)
    (sameKind : token.kind = kind) : ∃ rest, input = char :: rest := by
  obtain ⟨notEnd, notOpen, notLetter, -, -⟩ := kind_ne_of_operatorKind? found
  rcases kind_of_current current with
    ⟨-, isEnd⟩ | ⟨other, rest, rfl, otherFound⟩ | isOpen | isLetter
  · exact absurd (sameKind.symm.trans isEnd) notEnd
  · rw [sameKind] at otherFound
    exact ⟨rest, by rw [operatorKind?_injective found otherFound]⟩
  · exact absurd (sameKind.symm.trans isOpen) notOpen
  · exact absurd (sameKind.symm.trans isLetter) notLetter

/-- At a boundary of tokens stands no identifier, since identifiers stand only
behind letters, and no operator of two bars, since every bar is its own token. -/
theorem kind_ne_of_current {position : Nat} {input : List Char} {token : Token}
    (current : (cursorAt position input).current = .ok token) :
    token.kind ≠ .identifier ∧ token.kind ≠ .doublePipe := by
  rcases kind_of_current current with
    ⟨-, isEnd⟩ | ⟨char, rest, -, found⟩ | isOpen | isLetter
  · simp [isEnd]
  · exact (kind_ne_of_operatorKind? found).2.2.2
  · simp [isOpen]
  · simp [isLetter]

theorem input_of_current_endOfInput {position : Nat} {input : List Char} {token : Token}
    (current : (cursorAt position input).current = .ok token)
    (isEnd : token.kind = .endOfInput) : input = [] := by
  rcases kind_of_current current with
    ⟨atEnd, -⟩ | ⟨char, rest, -, found⟩ | isOpen | isLetter
  · exact atEnd
  · exact absurd isEnd (kind_ne_of_operatorKind? found).1
  · simp [isOpen] at isEnd
  · simp [isLetter] at isEnd

end Reading

end Schematic
