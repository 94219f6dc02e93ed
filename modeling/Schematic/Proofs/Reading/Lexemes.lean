import Schematic.Proofs.Reading.Stream

/-!
# The tokens of a text tile it

Every token stands for some characters of the text.  The tokens of a text follow each
other without a gap from its beginning, up to its end or up to the first character that
begins no token.  How a token begins and ends is told by the characters around it: an
identifier goes as far as it can, and an `O` that has no identifier behind it is a token
of its own.
-/

namespace Schematic

namespace Reading

open Grammar

namespace Token

/-- The characters that a token stands for. -/
def lexeme (token : Token) : List Char :=
  match token.kind with
  | .pipe => ['|']
  | .dash => ['-']
  | .plus => ['+']
  | .doublePipe => ['|', '|']
  | .openGroup => ['(']
  | .closeGroup => [')']
  | .elementLetter => (token.value.getD "").toList
  | .identifier => (token.value.getD "").toList
  | .openCircuit => ['O']
  | .endOfInput => []

/-- A token fits between the token in front of it and the characters behind it.  An
identifier belongs to the letter in front of it, so an `O` begins a token of its own
only where no letter is right in front. -/
structure Fits (last : Option Token) (token : Token) (behind : List Char) : Prop where
  letter : token.kind = .elementLetter → ∃ kind : ElementKind, token.lexeme = [kind.letter]
  identifier : token.kind = .identifier →
    token.lexeme ≠ [] ∧ (∀ char ∈ token.lexeme, char.isAlphanum = true) ∧ Stops behind ∧
      ∃ letter ∈ last, letter.kind = .elementLetter
  openCircuit : token.kind = .openCircuit ↔
    (∀ letter ∈ last, letter.kind ≠ .elementLetter) ∧
      ∃ rest, token.lexeme ++ behind = 'O' :: rest ∧ Stops rest
  notJoined : token.kind ≠ .doublePipe

end Token

/-- The characters that tokens stand for, one token after the other. -/
def spelling (tokens : List Token) : List Char :=
  tokens.flatMap Token.lexeme

/-- The token for the end of the input. -/
def endToken (position : Nat) : Token :=
  ⟨.endOfInput, position, none⟩

/-! ## Streams of tokens -/

/-- The stream of tokens of the characters from an offset on. -/
inductive Tiling : (position : Nat) → (input : List Char) → TokenStream → Prop where
  | nothing {position : Nat} : Tiling position [] ⟨[endToken position], none⟩
  | operator {position : Nat} {char : Char} {kind : TokenKind} {rest : List Char}
      {stream : TokenStream} : operatorKind? char = some kind →
      Tiling (position + 1) rest stream →
      Tiling position (char :: rest) (stream.push ⟨kind, position, none⟩)
  | openCircuit {position : Nat} {rest : List Char} {stream : TokenStream} : Stops rest →
      Tiling (position + 1) rest stream →
      Tiling position ('O' :: rest) (stream.push ⟨.openCircuit, position, none⟩)
  | named {position : Nat} {kind : ElementKind} {identifier rest : List Char}
      {stream : TokenStream} : identifier ≠ [] →
      (∀ char ∈ identifier, char.isAlphanum = true) → Stops rest →
      Tiling (position + 1 + identifier.length) rest stream →
      Tiling position (kind.letter :: (identifier ++ rest))
        ((stream.push
          ⟨.identifier, (position + 1 : Nat), some (String.ofList identifier)⟩).push
          (letterToken position kind))
  | unnamed {position : Nat} {kind : ElementKind} {rest : List Char} {stream : TokenStream} :
      kind ≠ .openCircuit → Stops rest → Tiling (position + 1) rest stream →
      Tiling position (kind.letter :: rest) (stream.push (letterToken position kind))
  | foreign {position : Nat} {char : Char} (rest : List Char) : operatorKind? char = none →
      ElementKind.ofLetter? char = none →
      Tiling position (char :: rest)
        ⟨[], some ⟨position, .unexpectedCharacter (String.singleton char)⟩⟩

theorem scan_tiling (position : Nat) (input : List Char) :
    Tiling position input (scan position 0 input) := by
  induction size : input.length using Nat.strongRecOn generalizing position input with
  | ind size ih =>
      subst size
      cases opening input with
      | nothing => exact .nothing
      | operator rest found =>
          rw [scan_operator found]
          exact .operator found (ih _ (by simp) _ _ rfl)
      | openCircuit stops =>
          rw [scan_openCircuit stops]
          exact .openCircuit stops (ih _ (by simp) _ _ rfl)
      | named nonempty alphanumeric stops =>
          rw [scan_named nonempty alphanumeric stops]
          refine .named nonempty alphanumeric stops (ih _ ?_ _ _ rfl)
          rw [List.length_cons, List.length_append]
          omega
      | unnamed notOpen stops =>
          rw [scan_unnamed notOpen stops]
          exact .unnamed notOpen stops (ih _ (by simp) _ _ rfl)
      | foreign rest noOperator noLetter =>
          rw [scan_foreign noOperator noLetter]
          exact .foreign rest noOperator noLetter

/-! ## Lexemes -/

theorem lexeme_operator {char : Char} {kind : TokenKind} (found : operatorKind? char = some kind)
    (position : Int) (value : Option String) : Token.lexeme ⟨kind, position, value⟩ = [char] := by
  unfold operatorKind? at found
  split at found <;> cases found <;> rfl

theorem lexeme_letterToken (position : Nat) (kind : ElementKind) :
    (letterToken position kind).lexeme = [kind.letter] := by
  simp [Token.lexeme, letterToken]

theorem lexeme_openCircuit (position : Int) : Token.lexeme ⟨.openCircuit, position, none⟩ = ['O'] :=
  rfl

theorem lexeme_endToken (position : Nat) : (endToken position).lexeme = [] :=
  rfl

theorem lexeme_identifier (position : Int) (identifier : List Char) :
    Token.lexeme ⟨.identifier, position, some (String.ofList identifier)⟩ = identifier := by
  simp [Token.lexeme]

/-! ## Tokens and what is around them -/

theorem fits_operator {char : Char} {kind : TokenKind} (found : operatorKind? char = some kind)
    (last : Option Token) (position : Nat) (behind : List Char) :
    Token.Fits last ⟨kind, position, none⟩ behind := by
  obtain ⟨-, notOpen, notLetter, notIdentifier, notJoined⟩ := kind_ne_of_operatorKind? found
  refine ⟨fun isLetter => absurd isLetter notLetter,
    fun isIdentifier => absurd isIdentifier notIdentifier,
    ⟨fun isOpen => absurd isOpen notOpen, ?_⟩, notJoined⟩
  rintro ⟨-, rest, same, -⟩
  rw [lexeme_operator found] at same
  obtain ⟨rfl, -⟩ := List.cons.inj same
  cases found

theorem fits_openCircuit {last : Option Token}
    (apart : ∀ letter ∈ last, letter.kind ≠ .elementLetter) (position : Nat)
    {behind : List Char} (stops : Stops behind) :
    Token.Fits last ⟨.openCircuit, position, none⟩ behind :=
  ⟨nofun, nofun, ⟨fun _ => ⟨apart, behind, rfl, stops⟩, fun _ => rfl⟩, nofun⟩

/-- The letter of an element is no open circuit: it has another letter, or an
identifier behind it. -/
theorem fits_letterToken (last : Option Token) (position : Nat) {kind : ElementKind}
    {behind : List Char} (element : kind = .openCircuit → ¬Stops behind) :
    Token.Fits last (letterToken position kind) behind := by
  refine ⟨fun _ => ⟨kind, lexeme_letterToken position kind⟩, nofun, ⟨nofun, ?_⟩, nofun⟩
  rintro ⟨-, rest, same, stops⟩
  rw [lexeme_letterToken] at same
  obtain ⟨isO, rfl⟩ := List.cons.inj same
  have isOpen : kind = .openCircuit := by
    cases kind <;> first | rfl | exact absurd isO (by decide)
  exact absurd stops (element isOpen)

theorem fits_identifier (letterPosition position : Nat) (kind : ElementKind)
    {identifier behind : List Char} (nonempty : identifier ≠ [])
    (alphanumeric : ∀ char ∈ identifier, char.isAlphanum = true) (stops : Stops behind) :
    Token.Fits (some (letterToken letterPosition kind))
      ⟨.identifier, position, some (String.ofList identifier)⟩ behind := by
  refine ⟨nofun, fun _ => ?_, ⟨nofun, fun isO => absurd rfl (isO.1 _ rfl)⟩, nofun⟩
  rw [lexeme_identifier]
  exact ⟨nonempty, alphanumeric, stops, _, rfl, rfl⟩

theorem fits_endToken (last : Option Token) (position : Nat) :
    Token.Fits last (endToken position) [] :=
  ⟨nofun, nofun, ⟨nofun, fun ⟨_, _, same, _⟩ => nomatch same⟩, nofun⟩

/-- Tokens stand one behind the other at the beginning of the characters from an offset
on, and each fits where it stands. -/
inductive Placed : (last : Option Token) → (position : Nat) → (input : List Char) →
    List Token → Prop where
  | nil {last : Option Token} {position : Nat} {input : List Char} :
      Placed last position input []
  | cons {last : Option Token} {position : Nat} {token : Token} {lexeme behind : List Char}
      {tokens : List Token} : token.lexeme = lexeme → token.position = position →
      token.Fits last behind → Placed (some token) (position + lexeme.length) behind tokens →
      Placed last position (lexeme ++ behind) (token :: tokens)

/-- The tokens of a stream fit where they stand.  A letter right in front of them has
no identifier that goes on here. -/
theorem Tiling.placed {position : Nat} {input : List Char} {stream : TokenStream}
    (tiling : Tiling position input stream) (last : Option Token)
    (lettered : ∀ letter ∈ last, letter.kind = .elementLetter → Stops input) :
    Placed last position input stream.tokens := by
  induction tiling generalizing last with
  | nothing => exact .cons (lexeme_endToken _) rfl (fits_endToken last _) .nil
  | operator found _ ih =>
      refine .cons (lexeme_operator found _ none) rfl (fits_operator found last _ _) (ih _ ?_)
      rintro _ ⟨⟩ isLetter
      exact absurd isLetter (kind_ne_of_operatorKind? found).2.2.1
  | openCircuit stops _ ih =>
      have apart : ∀ letter ∈ last, letter.kind ≠ .elementLetter := by
        intro letter isLast isLetter
        exact absurd (lettered letter isLast isLetter) (by simp)
      refine .cons (lexeme_openCircuit _) rfl (fits_openCircuit apart _ stops) (ih _ ?_)
      rintro _ ⟨⟩ ⟨⟩
  | named nonempty alphanumeric stops _ ih =>
      refine .cons (lexeme_letterToken _ _) rfl (fits_letterToken last _ fun _ => ?_) ?_
      · obtain ⟨char, others, rfl⟩ := List.exists_cons_of_ne_nil nonempty
        simp [alphanumeric char List.mem_cons_self]
      · refine .cons (lexeme_identifier _ _) rfl
          (fits_identifier _ _ _ nonempty alphanumeric stops) (ih _ ?_)
        rintro _ ⟨⟩ ⟨⟩
  | unnamed notOpen stops _ ih =>
      exact .cons (lexeme_letterToken _ _) rfl
        (fits_letterToken last _ fun isOpen => absurd isOpen notOpen) (ih _ fun _ _ _ => stops)
  | foreign => exact .nil

/-- What holds at every cut of placed tokens. -/
theorem Placed.cut {last : Option Token} {position : Nat} {input : List Char}
    {before after : List Token} {token : Token}
    (placed : Placed last position input (before ++ token :: after)) :
    ∃ behind, input = spelling before ++ (token.lexeme ++ behind) ∧
      token.position = (position + (spelling before).length : Nat) ∧
      token.Fits ((last.toList ++ before).getLast?) behind := by
  induction before generalizing last position input with
  | nil =>
      cases placed with
      | @cons _ _ _ _ behind _ spelled starts fits _ =>
          subst spelled
          refine ⟨behind, rfl, starts, ?_⟩
          cases last <;> exact fits
  | cons first before ih =>
      cases placed with
      | cons spelled _ _ later =>
          subst spelled
          obtain ⟨behind, rfl, starts, fits⟩ := ih later
          refine ⟨behind, by simp [spelling], ?_, ?_⟩
          · rw [starts, spelling, spelling, List.flatMap_cons, List.length_append, Nat.add_assoc]
          · cases last <;> exact fits

/-! ## The end of a stream -/

/-- The characters from an offset on are used up by the tokens, behind which is the end
of the input, or there is a foreign character behind the tokens. -/
inductive Ends (position : Nat) (input : List Char) (stream : TokenStream) : Prop where
  | whole (front : List Token) : input = spelling front → stream.fault = none →
      stream.tokens = front ++ [endToken (position + input.length)] →
      (∀ token ∈ front, token.kind ≠ .endOfInput) → Ends position input stream
  | foreign (char : Char) (rest : List Char) : input = spelling stream.tokens ++ char :: rest →
      stream.fault = some ⟨(position + (spelling stream.tokens).length : Nat),
        .unexpectedCharacter (String.singleton char)⟩ →
      operatorKind? char = none → ElementKind.ofLetter? char = none →
      (∀ token ∈ stream.tokens, token.kind ≠ .endOfInput) → Ends position input stream

theorem Ends.push {position : Nat} {lexeme input : List Char} {stream : TokenStream}
    {token : Token} (spelled : token.lexeme = lexeme) (notEnd : token.kind ≠ .endOfInput)
    (ends : Ends (position + lexeme.length) input stream) :
    Ends position (lexeme ++ input) (stream.push token) := by
  subst spelled
  cases ends with
  | whole front spelled noFault tokens noEnd =>
      refine .whole (token :: front) (by rw [spelled]; rfl) noFault ?_
        (List.forall_mem_cons.mpr ⟨notEnd, noEnd⟩)
      rw [TokenStream.push, tokens, List.length_append, Nat.add_assoc, List.cons_append]
  | foreign char rest spelled fault noOperator noLetter noEnd =>
      refine .foreign char rest ?_ ?_ noOperator noLetter
        (List.forall_mem_cons.mpr ⟨notEnd, noEnd⟩)
      · rw [TokenStream.push, spelling, List.flatMap_cons, List.append_assoc]
        exact congrArg (token.lexeme ++ ·) spelled
      · rw [TokenStream.push, spelling, List.flatMap_cons, List.length_append, ← Nat.add_assoc]
        exact fault

theorem Tiling.ends {position : Nat} {input : List Char} {stream : TokenStream}
    (tiling : Tiling position input stream) : Ends position input stream := by
  induction tiling with
  | nothing => exact .whole [] rfl rfl rfl nofun
  | operator found _ ih =>
      exact ih.push (lexeme_operator found _ none) (kind_ne_of_operatorKind? found).1
  | openCircuit _ _ ih => exact ih.push (lexeme_openCircuit _) nofun
  | named _ _ _ _ ih =>
      exact .push (lexeme_letterToken _ _) nofun (ih.push (lexeme_identifier _ _) nofun)
  | unnamed _ _ _ ih => exact ih.push (lexeme_letterToken _ _) nofun
  | foreign rest noOperator noLetter =>
      exact .foreign _ rest rfl rfl noOperator noLetter nofun

/-- A character that begins no token is neither an operator nor a letter of an
element. -/
theorem not_mem_of_foreign {char : Char} (noOperator : operatorKind? char = none)
    (noLetter : ElementKind.ofLetter? char = none) : char ∉ "|-+()ORCLVIZ".toList := by
  have begins : ("|-+()ORCLVIZ".toList.all fun char =>
      (operatorKind? char).isSome || (ElementKind.ofLetter? char).isSome) = true := rfl
  intro member
  rcases Bool.or_eq_true_iff.mp (List.all_eq_true.mp begins char member) with isOperator | isLetter
  · simp [noOperator] at isOperator
  · simp [noLetter] at isLetter

/-- The tokens of a text stand for a beginning of it, one token right behind the other,
and each fits where it stands.  They end with the one token for the end of the text, or
else at a character that is neither an operator nor a letter of an element, and the
fault names this character and its place. -/
theorem tokens_tile (text : String) :
    (∀ before token after, (tokenize text).tokens = before ++ token :: after →
      ∃ behind, text.toList = spelling before ++ token.lexeme ++ behind ∧
        token.position = ((spelling before).length : Int) ∧ token.Fits before.getLast? behind) ∧
    ((∃ front, (tokenize text).tokens = front ++ [⟨.endOfInput, text.length, none⟩] ∧
        spelling front = text.toList ∧ (∀ token ∈ front, token.kind ≠ .endOfInput) ∧
        (tokenize text).fault = none) ∨
      ∃ char rest, text.toList = spelling (tokenize text).tokens ++ char :: rest ∧
        (tokenize text).fault = some ⟨((spelling (tokenize text).tokens).length : Int),
          .unexpectedCharacter (String.singleton char)⟩ ∧
        char ∉ "|-+()ORCLVIZ".toList ∧
        ∀ token ∈ (tokenize text).tokens, token.kind ≠ .endOfInput) := by
  have tiling : Tiling 0 text.toList (tokenize text) := scan_tiling 0 text.toList
  constructor
  · intro before token after split
    have placed := tiling.placed none nofun
    rw [split] at placed
    obtain ⟨behind, same, starts, fits⟩ := placed.cut
    exact ⟨behind, by rw [same, List.append_assoc], by rw [starts, Nat.zero_add], fits⟩
  · cases tiling.ends with
    | whole front spelled noFault tokens noEnd =>
        refine .inl ⟨front, ?_, spelled.symm, noEnd, noFault⟩
        rw [tokens, Nat.zero_add, String.length_toList]
        rfl
    | foreign char rest spelled fault noOperator noLetter noEnd =>
        refine .inr ⟨char, rest, spelled, ?_, not_mem_of_foreign noOperator noLetter, noEnd⟩
        rw [fault, Nat.zero_add]

end Reading

end Schematic
