import Mathlib.Data.List.TakeWhile
import Schematic.CommandLine.Run
import Schematic.Proofs.Drawing.Standard
import Schematic.Proofs.Reading.Shallow
import Schematic.Proofs.Reading.Viable
import Schematic.Proofs.Rendering

/-!
# Documents in the argument and on the standard input

A document reaches a run as its only argument or, with a line feed behind it, on
the standard input.  The characters of documents are such that both ways mean the
same, except for one thing: an argument that begins with a dash is taken for an
option, and documents can begin with the dash of a series link.  Both ways lead to
the drawing, unless the document is huge or nested too deeply.
-/

namespace Schematic

namespace Reading

/-! ## Beginnings of documents -/

theorem run_of_parse {text : String} {circuit : Circuit} (parsed : parse text = .ok circuit) :
    ∃ last, Spot.first.run text.toList = some last ∧ last.Ends := by
  rcases parse_trail text with ⟨_, last, _, leads, ends⟩ | ⟨fault, refused, _⟩
  · exact ⟨last, leads, ends⟩
  · rw [refused] at parsed
    cases parsed

/-- Behind a dash at its start a document goes on with a group or an element. -/
theorem second_of_dash {text : String} {circuit : Circuit} {rest : List Char}
    (parsed : parse text = .ok circuit) (dashed : text.toList = '-' :: rest) :
    ∃ second behind, rest = second :: behind ∧
      (second = '(' ∨ ∃ kind : ElementKind, second = kind.letter) := by
  obtain ⟨last, leads, ends⟩ := run_of_parse parsed
  rw [dashed, Spot.run, show Spot.first.step '-' = some (.awaiting true 0) from rfl,
    Option.bind_some] at leads
  cases rest with
  | nil =>
      cases leads
      simp [Spot.Ends, Spot.awaiting] at ends
  | cons second behind =>
      refine ⟨second, behind, rfl, ?_⟩
      obtain ⟨next, stepped, -⟩ := Option.bind_eq_some_iff.mp leads
      by_cases isOpen : second = '('
      · exact .inl isOpen
      · cases found : ElementKind.ofLetter? second with
        | some kind => exact .inr ⟨kind, letter_of_ofLetter? found⟩
        | none =>
            rw [Spot.step_awaiting_eq_none isOpen found] at stepped
            cases stepped

end Reading

namespace CommandLine

open Reading

/-! ## One argument -/

theorem formOf_plain {text : String} (undashed : text.toList.head? ≠ some '-') :
    formOf text = .ok .plain := by
  unfold formOf
  split
  · next same => simp [same] at undashed
  · next same => simp [same] at undashed
  · rfl

theorem parse_plain {text : String} (undashed : text.toList.head? ≠ some '-') :
    parse [text] = .ok (.request { document := some text } []) := by
  have notSeparator : text ≠ "--" := by
    rintro rfl
    exact undashed rfl
  have forms : formsOf [text] = .ok [⟨text, .plain⟩] := by
    rw [formsOf, if_neg notSeparator, formOf_plain undashed]
    rfl
  have gathered : gather {} [⟨text, .plain⟩] =
      .ok (.request { document := some text } []) := by
    simp [gather, Gathering.place, withoutSeparator]
  rw [parse, forms, ok_bind, gathered]
  rfl

theorem parse_nothing : parse [] = .ok (.request {} []) := by
  have gathered : gather {} [] = .ok (.request {} []) := by
    simp [gather]
  rw [parse, formsOf, ok_bind, gathered]
  rfl

/-- No option and no number goes on behind its dash as a circuit begins. -/
theorem not_option_of_circuit {second : Char}
    (circuit : second = '(' ∨ ∃ kind : ElementKind, second = kind.letter) :
    second ≠ '-' ∧ second ≠ '.' ∧ Text.isDecimalDigit second = false ∧
      ∀ option : CommandOption, option.letter? ≠ some second := by
  rcases circuit with rfl | ⟨kind, rfl⟩
  · refine ⟨by decide, by decide, by decide, fun option => ?_⟩
    cases option <;> decide
  · refine ⟨?_, ?_, ?_, fun option => ?_⟩
    · cases kind <;> decide
    · cases kind <;> decide
    · cases kind <;> decide
    · cases kind <;> cases option <;> decide

theorem ofName?_eq_none {text : String} {second : Char} {behind : List Char}
    (dashed : text.toList = '-' :: second :: behind) (notDash : second ≠ '-')
    (noOption : ∀ option : CommandOption, option.letter? ≠ some second) :
    CommandOption.ofName? text = none := by
  rw [CommandOption.ofName?, List.find?_eq_none]
  intro option _ isName
  rcases (Bool.or_eq_true _ _).mp isName with isLong | isShort
  · have same : option.longName.toList = '-' :: second :: behind := by
      rw [← dashed, beq_iff_eq.mp isLong]
    have isDash : option.longName.toList[1]? = some '-' := by
      cases option <;> rfl
    rw [same] at isDash
    exact notDash (Option.some.inj isDash)
  · obtain ⟨letter, hasLetter, named⟩ := Option.map_eq_some_iff.mp (beq_iff_eq.mp isShort)
    rw [← named, String.toList_ofList] at dashed
    cases dashed
    exact noOption option hasLetter

theorem isNegativeNumber_eq_false {second : Char} {behind : List Char}
    (notPoint : second ≠ '.') (noDigit : Text.isDecimalDigit second = false)
    (noFeed : '\n' ∉ second :: behind) : isNegativeNumber (second :: behind) = false := by
  have ends : ∀ rest, (second :: behind).reverse ≠ '\n' :: rest := by
    intro rest same
    apply noFeed
    rw [← List.mem_reverse, same]
    exact List.mem_cons_self
  unfold isNegativeNumber
  split
  · next same => exact absurd same (ends _)
  · simp only [List.dropWhile_cons, noDigit]
    simp [notPoint]

/-- What begins with a dash and an element or a group is no option, no number and no
text with a space. -/
theorem formOf_link {text : String} {second : Char} {behind : List Char}
    (dashed : text.toList = '-' :: second :: behind)
    (circuit : second = '(' ∨ ∃ kind : ElementKind, second = kind.letter)
    (inNotation : ∀ char ∈ text.toList, IsNotationChar char) : formOf text = .ok .unknown := by
  obtain ⟨notDash, notPoint, noDigit, noOption⟩ := not_option_of_circuit circuit
  have lacks : ∀ char, ¬IsNotationChar char → char ∉ '-' :: second :: behind := by
    intro char foreign member
    rw [← dashed] at member
    exact foreign (inNotation char member)
  have noEquals : splitAtEquals ('-' :: second :: behind) = ('-' :: second :: behind, none) := by
    have noEquals := lacks '=' (by simp [IsNotationChar, operatorKind?])
    have passed : ('-' :: second :: behind).dropWhile (· != '=') = [] := by
      rw [List.dropWhile_eq_nil_iff]
      intro char member
      have other : char ≠ '=' := by
        rintro rfl
        exact noEquals member
      simpa using other
    rw [splitAtEquals, passed]
  have noSpace : ('-' :: second :: behind).contains ' ' = false := by
    have noSpace := lacks ' ' (by simp [IsNotationChar, operatorKind?])
    simpa using noSpace
  have noNumber : isNegativeNumber (second :: behind) = false := by
    refine isNegativeNumber_eq_false notPoint noDigit fun member => ?_
    exact lacks '\n' (by simp [IsNotationChar, operatorKind?]) (List.mem_cons_of_mem '-' member)
  have noLetter : CommandOption.ofLetter? second = none := by
    rw [CommandOption.ofLetter?, List.find?_eq_none]
    intro option _
    simpa using noOption option
  have noName := ofName?_eq_none dashed notDash noOption
  have isUnknown : dashedForm ('-' :: second :: behind) = .ok .unknown := by
    have otherwise : (isNegativeNumber (second :: behind) ||
        ('-' :: second :: behind).contains ' ') = false := by
      rw [noNumber, noSpace]
      rfl
    unfold dashedForm
    simp only [List.drop_succ_cons, List.drop_zero, otherwise, noLetter, Bool.false_eq_true,
      if_false]
  unfold formOf
  rw [dashed]
  simp only [noName, noEquals, isUnknown]

theorem parse_link {text : String} {second : Char} {behind : List Char}
    (dashed : text.toList = '-' :: second :: behind)
    (circuit : second = '(' ∨ ∃ kind : ElementKind, second = kind.letter)
    (inNotation : ∀ char ∈ text.toList, IsNotationChar char) :
    parse [text] = .error (.unrecognized [text]) := by
  have notSeparator : text ≠ "--" := by
    rintro rfl
    have isDash : '-' = second := (List.cons.inj (List.cons.inj dashed).2).1
    exact (not_option_of_circuit circuit).1 isDash.symm
  have forms : formsOf [text] = .ok [⟨text, .unknown⟩] := by
    rw [formsOf, if_neg notSeparator, formOf_link dashed circuit inNotation]
    rfl
  have gathered : gather {} [⟨text, .unknown⟩] = .ok (.request {} [text]) := by
    simp [gather]
  rw [parse, forms, ok_bind, gathered]
  rfl

/-! ## Runs -/

/-- A document that is not nested too deeply and has fewer than `2 ^ 19` elements is
rendered. -/
theorem exists_drawing_of_parse {text : String} {circuit : Circuit}
    (parsed : Reading.parse text = .ok circuit) (sizable : circuit.isSizable = true)
    (few : circuit.elements.length < 2 ^ 19) : ∃ drawing,
    (Renderer.mk .standard .standard false : Renderer Float).outcome text =
      .ok (Text.Coded.ofText drawing) := by
  obtain ⟨layout, drawing, placed, drawn⟩ :=
    (Reading.wellFormed_of_parse parsed).exists_drawing few
  refine ⟨drawing, ?_⟩
  have laidOut : (Renderer.mk .standard .standard false : Renderer Float).layoutOutcome text =
      .ok layout := by
    rw [Renderer.layoutOutcome_of_parse _ parsed rfl sizable]
    dsimp only [Settings.standard]
    rw [placed]
    rfl
  rw [Renderer.outcome, laidOut, ok_bind]
  dsimp only [Settings.standard]
  rw [drawn]
  rfl

theorem withoutLineFeeds_append {text : String}
    (inNotation : ∀ char ∈ text.toList, IsNotationChar char) :
    Text.withoutLineFeeds (text ++ "\n") = text := by
  have lacks : ∀ char, ¬IsNotationChar char → char ∉ text.toList :=
    fun char foreign member => foreign (inNotation char member)
  have noFeed := lacks '\n' (by simp [IsNotationChar, operatorKind?])
  have noReturn := lacks '\r' (by simp [IsNotationChar, operatorKind?])
  have kept : text.toList.reverse.dropWhile (fun char => char == '\n' || char == '\r') =
      text.toList.reverse := by
    rw [List.dropWhile_eq_self_iff]
    intro nonempty isFeed
    have member : text.toList.reverse[0] ∈ text.toList :=
      List.mem_reverse.mp (List.getElem_mem nonempty)
    rcases (Bool.or_eq_true _ _).mp isFeed with isFeed | isReturn
    · exact noFeed (beq_iff_eq.mp isFeed ▸ member)
    · exact noReturn (beq_iff_eq.mp isReturn ▸ member)
  rw [Text.withoutLineFeeds, Text.dropTrailing, String.toList_append]
  simp [kept]

/-- How a run without options ends with the result of a rendering. -/
def ending : Except RenderFailure Text.Coded → Except Interruption Outcome
  | .ok drawing =>
      match drawing.whole? with
      | some content => .ok ⟨0, content ++ "\n", ""⟩
      | none => .error .unencodable
  | .error failure =>
      match failure.diagnostic? with
      | some (diagnostic, _) => .ok ⟨1, "", diagnostic.report ++ "\n"⟩
      | none => .error (.rendering failure)

/-- What a run without options makes of a document: its drawing on the standard
output, or the report of a failure. -/
def bareOutcome (symbols : SymbolLibrary Float) (text : String) : Except Interruption Outcome :=
  ending ((Renderer.mk symbols .standard false).render text).run.1

theorem bareOutcome_ne_usage (symbols : SymbolLibrary Float) (text errors : String) :
    bareOutcome symbols text ≠ .ok ⟨2, "", errors⟩ := by
  unfold bareOutcome
  cases ((Renderer.mk symbols .standard false).render text).run.1 with
  | ok drawing =>
      dsimp only [ending]
      cases drawing.whole? <;> simp
  | error failure =>
      dsimp only [ending]
      cases failure.diagnostic? <;> simp

section

variable {m : Type → Type} [Monad m] [LawfulMonad m] (host : Host m)
  (symbols : SymbolLibrary Float)

theorem perform_bare (source : Option String) :
    perform host symbols { document := source } = (do
      let text ← document host { document := source }
      return bareOutcome symbols text) := by
  have noConfig : loadSettings host { document := source } = pure (.ok ⟨.standard, []⟩) := rfl
  have unchanged : withRequest { document := source } Settings.standard = .standard := rfl
  rw [perform, noConfig, pure_bind]
  refine bind_congr fun text => ?_
  dsimp only
  rw [unchanged]
  unfold bareOutcome
  generalize ((Renderer.mk symbols .standard false).render text).run = outcome
  obtain ⟨result, entries⟩ := outcome
  cases result with
  | ok drawing =>
      have printed : filled? ({ document := source } : Request).output = none := rfl
      dsimp only [deliver, ending]
      rw [printed, Text.Coded.whole?_append]
      cases drawing.whole? <;> rfl
  | error failure =>
      dsimp only [ending]
      cases failure.diagnostic? with
      | none => rfl
      | some told =>
          obtain ⟨diagnostic, short⟩ := told
          dsimp only [reported, shown]
          rw [if_neg Bool.false_ne_true, String.empty_append]

theorem run_plain {text : String} (undashed : text.toList.head? ≠ some '-') :
    run host symbols [text] = pure (bareOutcome symbols text) := by
  rw [run, parse_plain undashed]
  refine (perform_bare host symbols (some text)).trans ?_
  rw [document, pure_bind]

theorem run_nothing :
    run host symbols [] = (do
      let input ← host.input
      return bareOutcome symbols (Text.withoutLineFeeds input)) := by
  rw [run, parse_nothing]
  refine (perform_bare host symbols none).trans ?_
  rw [document, bind_assoc]
  simp only [pure_bind]

omit [LawfulMonad m] in
theorem run_link {text : String} {circuit : Circuit} (parsed : Reading.parse text = .ok circuit)
    (dashed : text.toList.head? = some '-') :
    run host symbols [text] =
      pure (.ok ⟨2, "", errorLine ("unrecognized arguments: " ++ text)⟩) := by
  obtain ⟨rest, split⟩ := List.head?_eq_some_iff.mp dashed
  obtain ⟨second, behind, rfl, begins⟩ := second_of_dash parsed split
  obtain ⟨last, leads, -⟩ := run_of_parse parsed
  have joined : " ".intercalate [text] = text := rfl
  rw [run, parse_link split begins (Spot.isNotationChar_of_run leads)]
  dsimp only [UsageFault.message]
  rw [joined]

end

theorem run_input (symbols : SymbolLibrary Float) (files : Storage.Files) {text : String}
    {circuit : Circuit} (parsed : Reading.parse text = .ok circuit) :
    (run modelled symbols []).run ⟨files, text ++ "\n"⟩ =
      (bareOutcome symbols text, ⟨files, text ++ "\n"⟩) := by
  obtain ⟨last, leads, -⟩ := run_of_parse parsed
  rw [run_nothing]
  show (bareOutcome symbols (Text.withoutLineFeeds (text ++ "\n")), _) = _
  rw [withoutLineFeeds_append (Spot.isNotationChar_of_run leads)]
  rfl

/-- A document on the standard input is the same request as the document in the only
argument, unless it begins with a dash; then the argument is refused as an option
that does not exist.  Neither way changes any file. -/
theorem argument_matches_input (symbols : SymbolLibrary Float) (files : Storage.Files)
    (input text : String) (circuit : Circuit) (parsed : Reading.parse text = .ok circuit) :
    (run modelled symbols []).run ⟨files, text ++ "\n"⟩ =
        (bareOutcome symbols text, ⟨files, text ++ "\n"⟩) ∧
      (text.toList.head? ≠ some '-' →
        (run modelled symbols [text]).run ⟨files, input⟩ =
          (bareOutcome symbols text, ⟨files, input⟩)) ∧
      (text.toList.head? = some '-' →
        (run modelled symbols [text]).run ⟨files, input⟩ =
          (.ok ⟨2, "", errorLine ("unrecognized arguments: " ++ text)⟩, ⟨files, input⟩)) := by
  refine ⟨run_input symbols files parsed, ?_, ?_⟩
  · intro undashed
    rw [run_plain modelled symbols undashed]
    rfl
  · intro dashed
    rw [run_link modelled symbols parsed dashed]
    rfl

/-- No files but the current directory. -/
def noFiles : Storage.Files :=
  { entries := [] }

/-- A shunt link is read from both places, a series link from the input only. -/
theorem argument_matches_input_links :
    Reading.parse "|R1" = .ok (.twoport [⟨.shunt, .element ⟨.resistor, some "1"⟩⟩]) ∧
      Reading.parse "-R1" = .ok (.twoport [⟨.series, .element ⟨.resistor, some "1"⟩⟩]) ∧
      ((run modelled .standard ["|R1"]).run ⟨noFiles, ""⟩).1 =
        ((run modelled .standard []).run ⟨noFiles, "|R1\n"⟩).1 ∧
      ((run modelled .standard ["-R1"]).run ⟨noFiles, ""⟩).1 =
        .ok ⟨2, "", "circmark-svg: error: unrecognized arguments: -R1\n"⟩ := by
  have shunt : Reading.parse "|R1" =
      .ok (.twoport [⟨.shunt, .element ⟨.resistor, some "1"⟩⟩]) :=
    eq_ok_of_toOption (by decide +kernel)
  have series : Reading.parse "-R1" =
      .ok (.twoport [⟨.series, .element ⟨.resistor, some "1"⟩⟩]) :=
    eq_ok_of_toOption (by decide +kernel)
  obtain ⟨shuntInput, shuntArgument, -⟩ := argument_matches_input .standard noFiles "" _ _ shunt
  obtain ⟨-, -, seriesArgument⟩ := argument_matches_input .standard noFiles "" _ _ series
  refine ⟨shunt, series, ?_, ?_⟩
  · have input : (run modelled .standard []).run ⟨noFiles, "|R1\n"⟩ =
        (bareOutcome .standard "|R1", ⟨noFiles, "|R1\n"⟩) := shuntInput
    rw [shuntArgument (by decide), input]
  · rw [seriesArgument (by decide)]
    rfl

/-- As an argument the document of one series link is refused, while on the standard
input it is no usage error. -/
theorem dashed_document_refused :
    Reading.parse "-R1" = .ok (.twoport [⟨.series, .element ⟨.resistor, some "1"⟩⟩]) ∧
      ((run modelled .standard ["-R1"]).run ⟨noFiles, ""⟩).1 ≠
        ((run modelled .standard []).run ⟨noFiles, "-R1\n"⟩).1 := by
  have series : Reading.parse "-R1" =
      .ok (.twoport [⟨.series, .element ⟨.resistor, some "1"⟩⟩]) :=
    eq_ok_of_toOption (by decide +kernel)
  refine ⟨series, fun same => ?_⟩
  rw [run_link modelled .standard series (by decide), run_nothing] at same
  exact bareOutcome_ne_usage .standard _ _ same.symm

/-- A document of fewer than `2 ^ 19` elements that is not nested too deeply is drawn and
printed, whether it comes from the input or, if it does not begin with a dash, from the
argument. -/
theorem small_document_printed {text : String} {circuit : Circuit}
    (parsed : Reading.parse text = .ok circuit) (sizable : circuit.isSizable = true)
    (few : circuit.elements.length < 2 ^ 19) : ∃ drawing,
    ((Renderer.mk .standard .standard false : Renderer Float).render text).run.1 =
        .ok (Text.Coded.ofText drawing) ∧
      (∀ files, (run modelled .standard []).run ⟨files, text ++ "\n"⟩ =
        (.ok ⟨0, drawing ++ "\n", ""⟩, ⟨files, text ++ "\n"⟩)) ∧
      (text.toList.head? ≠ some '-' → ∀ world, (run modelled .standard [text]).run world =
        (.ok ⟨0, drawing ++ "\n", ""⟩, world)) := by
  obtain ⟨drawing, rendered⟩ := exists_drawing_of_parse parsed sizable few
  rw [← Renderer.run_render] at rendered
  have printed : bareOutcome .standard text = .ok ⟨0, drawing ++ "\n", ""⟩ := by
    rw [bareOutcome, rendered]
    rfl
  refine ⟨drawing, rendered, fun files => ?_, fun undashed world => ?_⟩
  · rw [run_input .standard files parsed, printed]
  · rw [run_plain modelled .standard undashed, printed]
    rfl

end CommandLine

end Schematic
