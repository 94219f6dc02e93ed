import Schematic.Proofs.Reading.Sound

/-!
# Whatever follows the grammar is read

A derivation of the grammar guides the readers: this file follows it from the
elements up to whole documents.  Two things have to be watched on the way.  A
chain ends only where the token behind it is no operator, so the rest behind a
group matters; and the readers count their steps and the groups that they open,
so a derivation must not need more of them than are there.
-/

namespace Schematic

namespace Reading

open Grammar

/-- A reader reads `value` wherever `input` stands, up to `rest`, and passes at
least `count` tokens. -/
def Reads {α : Type} (reader : Reader α) (input : List Char) (value : α) (rest : List Char)
    (count : Nat) : Prop :=
  ∀ position, ∃ last, reader (cursorAt position input) = .ok (value, cursorAt last rest) ∧
    (cursorAt last rest).tokens.length + count ≤ (cursorAt position input).tokens.length

/-- An operator is not there. -/
def Lacks (operator : OperatorReader) (input : List Char) : Prop :=
  ∀ position, operator (cursorAt position input) = .ok none

/-- An operator is found where its sign stands. -/
def Passes (operator : OperatorReader) (sign : List Char) : Prop :=
  ∀ position rest, ∃ last,
    operator (cursorAt position (sign ++ rest)) = .ok (some (cursorAt last rest)) ∧
      (cursorAt last rest).tokens.length ≤ (cursorAt position (sign ++ rest)).tokens.length

/-! ## Chains -/

theorem readChain_single {α : Type} {item : Reader α} {operator : OperatorReader}
    {input rest : List Char} {value : α} (itemReads : Reads item input value rest 1)
    (ends : Lacks operator rest) (steps : Nat) :
    Reads (readChain item operator steps) input [value] rest 1 := by
  intro position
  obtain ⟨last, itemRead, passed⟩ := itemReads position
  refine ⟨last, ?_, passed⟩
  cases steps with
  | zero =>
      simp only [readChain, itemRead, ok_bind]
      rfl
  | succ steps =>
      simp only [readChain, itemRead, ok_bind, ends last]
      rfl

theorem readChain_cons {α : Type} {item : Reader α} {operator : OperatorReader}
    {sign input middle rest : List Char} {value : α} {values : List α} {steps : Nat}
    (itemReads : Reads item input value (sign ++ middle) 1) (passes : Passes operator sign)
    (othersRead : Reads (readChain item operator steps) middle values rest values.length) :
    Reads (readChain item operator (steps + 1)) input (value :: values) rest
      (values.length + 1) := by
  intro position
  obtain ⟨atSign, itemRead, passedItem⟩ := itemReads position
  obtain ⟨behindSign, signRead, passedSign⟩ := passes atSign middle
  obtain ⟨last, othersRead, passedOthers⟩ := othersRead behindSign
  refine ⟨last, ?_, by omega⟩
  simp only [readChain, itemRead, ok_bind, signRead, othersRead]
  rfl

/-- A chain that is read in as many steps as it has members is read as well in
as many steps as there are tokens. -/
theorem readChain_tokens {α : Type} {item : Reader α} {operator : OperatorReader}
    {input rest : List Char} {values : List α}
    (reads : ∀ steps, values.length ≤ steps + 1 →
      Reads (readChain item operator steps) input values rest values.length)
    (position : Nat) :
    ∃ last, readChain item operator (cursorAt position input).tokens.length
        (cursorAt position input) = .ok (values, cursorAt last rest) ∧
      (cursorAt last rest).tokens.length + values.length ≤
        (cursorAt position input).tokens.length := by
  obtain ⟨_, -, enough⟩ := reads values.length (by omega) position
  exact reads (cursorAt position input).tokens.length (by omega) position

/-! ## Operators -/

theorem tokens_length_operator {char : Char} {kind : TokenKind}
    (found : operatorKind? char = some kind) (position : Nat) (rest : List Char) :
    (cursorAt position (char :: rest)).tokens.length =
      (cursorAt (position + 1) rest).tokens.length + 1 := by
  simp [cursorAt, scan_operator found, TokenStream.push]

theorem readPlus_passes : Passes readPlus ['+'] := by
  intro position rest
  have found : operatorKind? '+' = some .plus := rfl
  refine ⟨position + 1, ?_, ?_⟩
  · simp only [readPlus, List.cons_append, List.nil_append, current_operator found, ok_bind,
      advance_operator found]
    rfl
  · simp [tokens_length_operator found]

theorem readPlus_lacks {char : Char} {kind : TokenKind}
    (found : operatorKind? char = some kind) (notPlus : kind ≠ .plus) (rest : List Char) :
    Lacks readPlus (char :: rest) := by
  intro position
  simp only [readPlus, current_operator found, ok_bind, if_neg notPlus]
  rfl

theorem readParallel_passes : Passes readParallel ['|', '|'] := by
  intro position rest
  have found : operatorKind? '|' = some .pipe := rfl
  refine ⟨position + 1 + 1, ?_, ?_⟩
  · simp only [readParallel, List.cons_append, List.nil_append, current_operator found, ok_bind,
      advance_operator found]
    rfl
  · simp [tokens_length_operator found]
    omega

theorem readParallel_lacks {char : Char} {kind : TokenKind}
    (found : operatorKind? char = some kind) (notPipe : kind ≠ .pipe) (rest : List Char) :
    Lacks readParallel (char :: rest) := by
  intro position
  have notDouble := (kind_ne_of_operatorKind? found).2.2.2.2
  simp only [readParallel, current_operator found, ok_bind, if_neg notPipe, if_neg notDouble]
  rfl

/-! ## Circuits -/

theorem collapse_of_collapsed {group : List Circuit → Circuit} {members : List Circuit}
    {circuit : Circuit} (collapsed : Collapsed group members circuit) :
    collapse group members = circuit := by
  cases collapsed with
  | single => rfl
  | several several =>
      match members with
      | _ :: _ :: _ => rfl

theorem readElement_form {input rest : List Char} {element : Element}
    (form : ElementForm input element rest) (depth : Nat) :
    Reads (readCircuit depth) input (.element element) rest 1 := by
  intro position
  cases form with
  | openCircuit stops =>
      refine ⟨position + 1, ?_, ?_⟩
      · rw [readCircuit.eq_def]
        simp only [current_openCircuit stops, advance_openCircuit stops, ok_bind]
        rfl
      · simp [cursorAt, scan_openCircuit stops, TokenStream.push]
  | @named kind identifier rest notOpen nonempty alphanumeric stops =>
      refine ⟨position + 1 + identifier.length, ?_, ?_⟩
      · rw [readCircuit.eq_def]
        simp only [current_named nonempty alphanumeric stops, ok_bind]
        exact readElement_named notOpen nonempty alphanumeric stops position
      · simp [cursorAt, scan_named nonempty alphanumeric stops, TokenStream.push]

/-- What begins a circuit is no closing parenthesis. -/
def Begins (input : List Char) : Prop :=
  ∀ position, ∃ token,
    (cursorAt position input).current = .ok token ∧ token.kind ≠ .closeGroup

theorem Subcircuit.begins {input rest : List Char} {circuit : Circuit}
    (derived : Subcircuit input circuit rest) : Begins input := by
  intro position
  cases derived with
  | element form =>
      cases form with
      | openCircuit stops => exact ⟨_, current_openCircuit stops position, by simp⟩
      | named notOpen nonempty alphanumeric stops =>
          exact ⟨_, current_named nonempty alphanumeric stops position, by simp [letterToken]⟩
  | group inner =>
      have found : operatorKind? '(' = some .openGroup := rfl
      exact ⟨_, current_operator found position _, by simp⟩

theorem SeriesGroup.begins {input rest : List Char} {circuit : Circuit}
    (derived : SeriesGroup input circuit rest) : Begins input := by
  obtain ⟨members, -⟩ := derived
  obtain ⟨branches, -⟩ | ⟨⟨branches, -⟩, -⟩ := members
  all_goals
    cases branches with
    | last derived => exact Subcircuit.begins derived
    | more derived => exact Subcircuit.begins derived

/-- A group in parentheses is read if its inside is. -/
theorem readCircuit_group {depth : Nat} {input rest : List Char} {circuit : Circuit}
    (begins : Begins input)
    (inside : Reads (readMembers (readCircuit depth)) input circuit (')' :: rest) 1) :
    Reads (readCircuit (depth + 1)) ('(' :: input) circuit rest 1 := by
  intro position
  have opens : operatorKind? '(' = some .openGroup := rfl
  have closes : operatorKind? ')' = some .closeGroup := rfl
  obtain ⟨token, current, notClose⟩ := begins (position + 1)
  obtain ⟨last, read, passed⟩ := inside (position + 1)
  refine ⟨last + 1, ?_, ?_⟩
  · rw [readCircuit_open]
    simp only [current, read, ok_bind, if_neg notClose, Cursor.expect, current_operator closes,
      advance_operator closes]
    rfl
  · rw [tokens_length_operator closes] at passed
    rw [tokens_length_operator opens]
    omega

mutual

/-- Circuits are read, if as many groups may be opened as they need. -/
theorem readCircuit_complete {input rest : List Char} {circuit : Circuit} (level depth : Nat)
    (nested : nesting level input ≤ level + depth) :
    Subcircuit input circuit rest → Reads (readCircuit depth) input circuit rest 1
  | .element form => readElement_form form depth
  | .group inner => by
      rw [nesting_open] at nested
      obtain ⟨depth, rfl⟩ : ∃ smaller, depth = smaller + 1 := by
        have opened := le_nesting (level + 1) ‹List Char›
        exact ⟨depth - 1, by omega⟩
      have closes : operatorKind? ')' = some .closeGroup := rfl
      exact readCircuit_group (SeriesGroup.begins inner) <|
        readMembers_complete (level + 1) depth (by omega)
          (readPlus_lacks closes (by simp) _) (readParallel_lacks closes (by simp) _) inner

theorem readMembers_complete {input rest : List Char} {circuit : Circuit} (level depth : Nat)
    (nested : nesting level input ≤ level + depth) (noPlus : Lacks readPlus rest)
    (noParallel : Lacks readParallel rest) :
    SeriesGroup input circuit rest →
      Reads (readMembers (readCircuit depth)) input circuit rest 1
  | .of inner collapsed => by
      intro position
      obtain ⟨last, read, passed⟩ := readChain_tokens
        (fun steps enough =>
          readMembers_chain level depth nested noPlus noParallel steps enough inner) position
      have nonempty := List.length_pos_iff.mpr inner.ne_nil
      refine ⟨last, ?_, by omega⟩
      simp only [readMembers, read, ok_bind, collapse_of_collapsed collapsed]
      rfl

theorem readMembers_chain {input rest : List Char} {members : List Circuit} (level depth : Nat)
    (nested : nesting level input ≤ level + depth) (noPlus : Lacks readPlus rest)
    (noParallel : Lacks readParallel rest) (steps : Nat) (enough : members.length ≤ steps + 1) :
    Members input members rest →
      Reads (readChain (readBranches (readCircuit depth)) readPlus steps) input members rest
        members.length
  | .last inner =>
      readChain_single (readBranches_complete level depth nested noParallel inner) noPlus steps
  | @Members.more _ middle _ member members first others => by
      have behindFirst := ParallelGroup.nesting_le level first
      rw [nesting_plain (by simp [IsPlain])] at behindFirst
      have isPlus : operatorKind? '+' = some .plus := rfl
      have firstReads :
          Reads (readBranches (readCircuit depth)) input member (['+'] ++ middle) 1 :=
        readBranches_complete level depth nested (readParallel_lacks isPlus (by simp) middle)
          first
      have nonempty := List.length_pos_iff.mpr others.ne_nil
      rw [List.length_cons] at enough
      obtain ⟨steps, rfl⟩ : ∃ fewer, steps = fewer + 1 := ⟨steps - 1, by omega⟩
      exact readChain_cons firstReads readPlus_passes <|
        readMembers_chain level depth (by omega) noPlus noParallel steps (by omega) others

theorem readBranches_complete {input rest : List Char} {circuit : Circuit} (level depth : Nat)
    (nested : nesting level input ≤ level + depth) (noParallel : Lacks readParallel rest) :
    ParallelGroup input circuit rest →
      Reads (readBranches (readCircuit depth)) input circuit rest 1
  | .of inner collapsed => by
      intro position
      obtain ⟨last, read, passed⟩ := readChain_tokens
        (fun steps enough =>
          readBranches_chain level depth nested noParallel steps enough inner) position
      have nonempty := List.length_pos_iff.mpr inner.ne_nil
      refine ⟨last, ?_, by omega⟩
      simp only [readBranches, read, ok_bind, collapse_of_collapsed collapsed]
      rfl

theorem readBranches_chain {input rest : List Char} {branches : List Circuit} (level depth : Nat)
    (nested : nesting level input ≤ level + depth) (noParallel : Lacks readParallel rest)
    (steps : Nat) (enough : branches.length ≤ steps + 1) :
    Branches input branches rest →
      Reads (readChain (readCircuit depth) readParallel steps) input branches rest
        branches.length
  | .last inner =>
      readChain_single (readCircuit_complete level depth nested inner) noParallel steps
  | @Branches.more _ middle _ branch branches first others => by
      have behindFirst := Subcircuit.nesting_le level first
      rw [nesting_plain (by simp [IsPlain]), nesting_plain (by simp [IsPlain])] at behindFirst
      have firstReads :
          Reads (readCircuit depth) input branch (['|', '|'] ++ middle) 1 :=
        readCircuit_complete level depth nested first
      have nonempty := List.length_pos_iff.mpr others.ne_nil
      rw [List.length_cons] at enough
      obtain ⟨steps, rfl⟩ : ∃ fewer, steps = fewer + 1 := ⟨steps - 1, by omega⟩
      exact readChain_cons firstReads readParallel_passes <|
        readBranches_chain level depth (by omega) noParallel steps (by omega) others

end

/-! ## Documents -/

theorem linkKind?_of_sign (kind : LinkKind) :
    ∃ token, operatorKind? kind.sign = some token ∧ linkKind? token = some kind := by
  cases kind
  · exact ⟨.pipe, rfl, rfl⟩
  · exact ⟨.dash, rfl, rfl⟩

theorem readLinks_nil (circuit : Reader Circuit) (steps position : Nat) :
    readLinks circuit steps (cursorAt position []) = .ok ([], cursorAt position []) := by
  cases steps <;> rfl

theorem readLinks_cons {circuit : Reader Circuit} {kind : LinkKind} {input : List Char}
    {position steps : Nat} {target : Circuit} {links : List (Link Circuit)}
    {middle last : Cursor}
    (targetRead : circuit (cursorAt (position + 1) input) = .ok (target, middle))
    (othersRead : readLinks circuit steps middle = .ok (links, last)) :
    readLinks circuit (steps + 1) (cursorAt position (kind.sign :: input)) =
      .ok (⟨kind, target⟩ :: links, last) := by
  obtain ⟨token, operator, isLink⟩ := linkKind?_of_sign kind
  simp only [readLinks, current_operator operator, ok_bind, isLink, advance_operator operator,
    targetRead, othersRead]
  rfl

/-- Links are read up to the end of the text. -/
theorem readLinks_complete {input rest : List Char} {links : List (Link Circuit)}
    (derived : Links input links rest) (atEnd : rest = []) {level depth : Nat}
    (nested : nesting level input ≤ level + depth) (position steps : Nat)
    (enough : (cursorAt position input).tokens.length ≤ steps) :
    ∃ last, readLinks (readCircuit depth) steps (cursorAt position input) =
      .ok (links, cursorAt last []) := by
  induction derived generalizing position steps with
  | @last kind input rest target derived =>
      subst atEnd
      obtain ⟨token, operator, -⟩ := linkKind?_of_sign kind
      rw [nesting_plain (isPlain_sign kind)] at nested
      rw [tokens_length_operator operator] at enough
      obtain ⟨steps, rfl⟩ : ∃ fewer, steps = fewer + 1 := ⟨steps - 1, by omega⟩
      obtain ⟨last, targetRead, -⟩ :=
        readCircuit_complete level depth nested derived (position + 1)
      exact ⟨last, readLinks_cons targetRead (readLinks_nil _ steps last)⟩
  | @more kind input middle rest target links derived others ih =>
      obtain ⟨token, operator, -⟩ := linkKind?_of_sign kind
      rw [nesting_plain (isPlain_sign kind)] at nested
      rw [tokens_length_operator operator] at enough
      obtain ⟨steps, rfl⟩ : ∃ fewer, steps = fewer + 1 := ⟨steps - 1, by omega⟩
      obtain ⟨behind, targetRead, passed⟩ :=
        readCircuit_complete level depth nested derived (position + 1)
      have behindTarget := Subcircuit.nesting_le level derived
      obtain ⟨last, othersRead⟩ := ih atEnd (by omega) behind steps (by omega)
      exact ⟨last, readLinks_cons targetRead othersRead⟩

/-- A circuit begins with no link. -/
theorem Subcircuit.linkKind?_eq_none {input rest : List Char} {circuit : Circuit}
    (derived : Subcircuit input circuit rest) (position : Nat) :
    ∃ token, (cursorAt position input).current = .ok token ∧ linkKind? token.kind = none := by
  cases derived with
  | element form =>
      cases form with
      | openCircuit stops => exact ⟨_, current_openCircuit stops position, rfl⟩
      | named notOpen nonempty alphanumeric stops =>
          exact ⟨_, current_named nonempty alphanumeric stops position, rfl⟩
  | group inner =>
      have found : operatorKind? '(' = some .openGroup := rfl
      exact ⟨_, current_operator found position _, rfl⟩

/-- A chain of links begins with one. -/
theorem Links.linkKind?_isSome {input rest : List Char} {links : List (Link Circuit)}
    (derived : Links input links rest) (position : Nat) :
    ∃ token, (cursorAt position input).current = .ok token ∧
      (linkKind? token.kind).isSome = true := by
  cases derived with
  | last derived =>
      obtain ⟨token, operator, isLink⟩ := linkKind?_of_sign ‹LinkKind›
      exact ⟨_, current_operator operator position _, by simp [isLink]⟩
  | more derived others =>
      obtain ⟨token, operator, isLink⟩ := linkKind?_of_sign ‹LinkKind›
      exact ⟨_, current_operator operator position _, by simp [isLink]⟩

/-- A document whose groups are nested no deeper than the limit is read. -/
theorem parse_of_document {text : String} {circuit : Circuit}
    (derived : Document text.toList circuit)
    (nested : nesting 0 text.toList ≤ nestingLimit) : parse text = .ok circuit := by
  rw [parse, parseTokens, readRoot, ofStream_tokenize]
  have limit : nesting 0 text.toList ≤ 0 + nestingLimit := by omega
  cases derived with
  | circuit derived =>
      obtain ⟨token, current, noLink⟩ := Subcircuit.linkKind?_eq_none derived 0
      obtain ⟨last, read, -⟩ := readCircuit_complete 0 nestingLimit limit derived 0
      simp only [current, ok_bind, noLink, read, Option.isSome_none, Bool.false_eq_true,
        if_false]
      rfl
  | twoport derived =>
      obtain ⟨token, current, isLink⟩ := Links.linkKind?_isSome derived 0
      obtain ⟨last, read⟩ := readLinks_complete derived rfl limit 0 _ (Nat.le_succ _)
      simp only [current, ok_bind, isLink, read, if_true]
      rfl

end Reading

end Schematic
