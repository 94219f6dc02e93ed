import Schematic.Proofs.CommandLine.Debugging
import Schematic.Proofs.CommandLine.Endings
import Schematic.Proofs.CommandLine.Sources
import Schematic.Proofs.Reading.Nested
import Schematic.Proofs.Storage.Writing

/-!
# Runs deliver all or nothing

A run that ends well has rendered its document, and has written the whole
drawing to one place and nothing to any other.  A run that ends with another
status has written nothing but messages.  Showing the journal makes no
difference to either.
-/

namespace Schematic

namespace CommandLine

/-- A text was delivered to where the request wants it. -/
def Delivers (request : Request) (before after : World) (output text : String) : Prop :=
  after.input = before.input ∧
    match filled? request.output with
    | none => output = text ∧ after.files = before.files
    | some name => output = "" ∧
        ∃ place, before.files.Saves after.files (.ofText name) place text.toUTF8

/-- What a run for a request comes to: a whole drawing, or messages only, unless the file
that was opened for the drawing could not be filled. -/
inductive Settles (symbols : SymbolLibrary Float) (request : Request) (before after : World)
    (outcome : Outcome) : Prop where
  | drawn {loaded : Settings.Loaded} {drawing : String} :
      outcome.status = 0 →
      request.settingsIn before.files = .ok loaded →
      ((request.renderer symbols loaded).render (request.sourceFrom before.input)).run.1 =
        .ok (Text.Coded.ofText drawing) →
      Delivers request before after outcome.output (drawing ++ "\n") →
      Settles symbols request before after outcome
  | told :
      outcome.status = 1 → outcome.output = "" → outcome.errors ≠ "" → after = before →
      Settles symbols request before after outcome
  /-- There was room only for a beginning of the drawing. -/
  | cut {loaded : Settings.Loaded} {drawing name : String} {place : Storage.Place} {room : Nat} :
      outcome.status = 1 → outcome.output = "" → outcome.errors ≠ "" →
      request.settingsIn before.files = .ok loaded →
      ((request.renderer symbols loaded).render (request.sourceFrom before.input)).run.1 =
        .ok (Text.Coded.ofText drawing) →
      filled? request.output = some name → before.files.room = some room →
      room < (drawing ++ "\n").toUTF8.size → after.input = before.input →
      before.files.Saves after.files (.ofText name) place
        ((drawing ++ "\n").toUTF8.extract 0 room) →
      Settles symbols request before after outcome

/-- What can be seen of the end of a run, apart from the standard error. -/
def apparent (ending : Except Interruption Outcome × World) :
    Except Interruption (Nat × String) × World :=
  (ending.1.map fun outcome => (outcome.status, outcome.output), ending.2)

theorem append_feed_ne_empty (text : String) : text ++ "\n" ≠ "" := by
  simp

theorem errorLine_ne_empty (message : String) : errorLine message ≠ "" :=
  append_feed_ne_empty _

/-! ## Showing the journal -/

/-- The arguments ask for a document that is read and is nested too deeply to be printed. -/
def Overflows (arguments : List String) (world : World) : Prop :=
  ∃ request unused loaded circuit, parse arguments = .ok (.request request unused) ∧
    request.settingsIn world.files = .ok loaded ∧
    Reading.parse (request.sourceFrom world.input) = .ok circuit ∧ circuit.isPrintable = false

section

variable (symbols : SymbolLibrary Float) (request : Request) (world : World)

/-- What is told cannot be seen of a delivery. -/
theorem apparent_deliver (other : Request) (same : request.output = other.output)
    (journal others : Journal) (drawing : Text.Coded) :
    apparent ((deliver modelled request journal drawing).run world) =
      apparent ((deliver modelled other others drawing).run world) := by
  rw [run_deliver, run_deliver, same]
  cases filled? other.output with
  | none => cases drawing.whole? <;> rfl
  | some output =>
      dsimp only
      split
      · rfl
      · generalize world.files.write (.ofText output) (drawing ++ "\n") = written
        obtain ⟨fate, files⟩ := written
        cases fate <;> rfl

/-- What can be seen of a run for a request depends on the result of the rendering, not on
the journal. -/
theorem apparent_perform :
    apparent ((perform modelled symbols request).run world) =
      match request.settingsIn world.files with
      | .error (.problem _) => (.ok (1, ""), world)
      | .error failure => (.error (.settings failure), world)
      | .ok loaded =>
          match (request.renderer symbols loaded).outcome (request.sourceFrom world.input) with
          | .ok drawing => apparent ((deliver modelled request [] drawing).run world)
          | .error failure =>
              match failure.diagnostic? with
              | some _ => (.ok (1, ""), world)
              | none => (.error (.rendering failure), world) := by
  rw [run_perform]
  cases request.settingsIn world.files with
  | error failure => cases failure <;> rfl
  | ok loaded =>
      dsimp only
      rw [← Renderer.run_render]
      generalize ((request.renderer symbols loaded).render (request.sourceFrom world.input)).run =
        rendered
      obtain ⟨result, entries⟩ := rendered
      cases result with
      | ok drawing => exact apparent_deliver request world request rfl _ _ drawing
      | error failure =>
          dsimp only
          cases failure.diagnostic? <;> rfl

theorem renderer_debugged (loaded : Settings.Loaded) :
    request.debugged.renderer symbols loaded =
      (request.renderer symbols loaded).showing true :=
  rfl

/-- Showing the journal makes no difference to what can be seen, if the document can be
printed. -/
theorem perform_debugged
    (printable : ∀ loaded circuit, request.settingsIn world.files = .ok loaded →
      Reading.parse (request.sourceFrom world.input) = .ok circuit → circuit.isPrintable = true) :
    apparent ((perform modelled symbols request.debugged).run world) =
      apparent ((perform modelled symbols request).run world) := by
  have sameSettings : request.debugged.settingsIn world.files =
      request.settingsIn world.files := rfl
  have sameSource : request.debugged.sourceFrom world.input =
      request.sourceFrom world.input := rfl
  rw [apparent_perform, apparent_perform, sameSettings, sameSource]
  cases loads : request.settingsIn world.files with
  | error failure => cases failure <;> rfl
  | ok loaded =>
      dsimp only
      rw [renderer_debugged,
        Renderer.outcome_showing _ _ fun circuit => printable loaded circuit loads]
      cases (request.renderer symbols loaded).outcome (request.sourceFrom world.input) with
      | error failure => rfl
      | ok drawing => exact apparent_deliver request.debugged world request rfl _ _ drawing

/-- Showing the journal cuts a run off whose document cannot be printed. -/
theorem perform_debugged_of_deep {loaded : Settings.Loaded} {circuit : Circuit}
    (loads : request.settingsIn world.files = .ok loaded)
    (parsed : Reading.parse (request.sourceFrom world.input) = .ok circuit)
    (deep : circuit.isPrintable = false) :
    (perform modelled symbols request.debugged).run world =
      (.error (.rendering .tooDeep), world) := by
  have sameSettings : request.debugged.settingsIn world.files = .ok loaded := loads
  have failed : ((request.debugged.renderer symbols loaded).render
      (request.debugged.sourceFrom world.input)).run.1 = .error .tooDeep := by
    rw [Renderer.run_render, renderer_debugged]
    exact Renderer.outcome_showing_of_deep _ parsed deep
  rw [run_perform, sameSettings]
  dsimp only
  rw [failed]
  rfl

end

/-! ## Settling a request -/

section

variable {symbols : SymbolLibrary Float} {request : Request} {world after : World}
  {outcome : Outcome}

theorem settles_reported (journal : Journal) (diagnostic : Diagnostic) :
    Settles symbols request world world (reported request journal diagnostic) :=
  .told rfl rfl (append_feed_ne_empty _) rfl

theorem exists_of_whole?_append {drawing : Text.Coded} {behind content : String}
    (whole : (drawing ++ Text.Coded.ofText behind).whole? = some content) :
    ∃ plain, drawing = Text.Coded.ofText plain ∧ content = plain ++ behind := by
  rw [Text.Coded.whole?_append] at whole
  obtain ⟨plain, isPlain, rfl⟩ := Option.map_eq_some_iff.mp whole
  exact ⟨plain, Text.Coded.whole?_eq_some_iff.mp isPlain, rfl⟩

theorem settles_deliver {loaded : Settings.Loaded} {drawing : Text.Coded} {journal : Journal}
    (loads : request.settingsIn world.files = .ok loaded)
    (drawn : ((request.renderer symbols loaded).render (request.sourceFrom world.input)).run.1 =
      .ok drawing)
    (delivered : (deliver modelled request journal drawing).run world = (.ok outcome, after)) :
    Settles symbols request world after outcome := by
  rw [run_deliver] at delivered
  cases named : filled? request.output with
  | none =>
      rw [named] at delivered
      cases whole : drawing.whole? with
      | none =>
          rw [whole] at delivered
          cases delivered
      | some content =>
          rw [whole] at delivered
          cases delivered
          obtain rfl := Text.Coded.whole?_eq_some_iff.mp whole
          refine .drawn rfl loads drawn ⟨rfl, ?_⟩
          rw [named]
          exact ⟨rfl, rfl⟩
  | some output =>
      rw [named] at delivered
      dsimp only at delivered
      split at delivered
      · cases delivered
      · have leaves := world.files.leaves_write (.ofText output) (drawing ++ "\n")
        generalize world.files.write (.ofText output) (drawing ++ "\n") = written
          at delivered leaves
        obtain ⟨fate, files⟩ := written
        have told (journal : Journal) (message : String) :
            shown request journal ++ errorLine message ≠ "" := by
          simp [errorLine]
        cases leaves with
        | saved whole saves =>
            obtain ⟨plain, rfl, rfl⟩ := exists_of_whole?_append whole
            cases delivered
            refine .drawn rfl loads drawn ⟨rfl, ?_⟩
            rw [named]
            exact ⟨rfl, _, saves⟩
        | unopened =>
            cases delivered
            exact .told rfl rfl (told _ _) rfl
        | cut whole room less saves =>
            obtain ⟨plain, rfl, rfl⟩ := exists_of_whole?_append whole
            cases delivered
            exact .cut rfl rfl (told _ _) loads drawn named room less rfl saves
        | emptied => cases delivered

theorem settles_perform
    (performed : (perform modelled symbols request).run world = (.ok outcome, after)) :
    Settles symbols request world after outcome := by
  rw [run_perform] at performed
  cases loads : request.settingsIn world.files with
  | error failure =>
      rw [loads] at performed
      cases failure with
      | problem problem =>
          cases performed
          exact settles_reported _ _
      | _ => cases performed
  | ok loaded =>
      rw [loads] at performed
      dsimp only at performed
      cases drawn : ((request.renderer symbols loaded).render
          (request.sourceFrom world.input)).run.1 with
      | ok drawing =>
          rw [drawn] at performed
          exact settles_deliver loads drawn performed
      | error failure =>
          rw [drawn] at performed
          dsimp only at performed
          cases told : failure.diagnostic? with
          | some diagnostic =>
              rw [told] at performed
              cases performed
              exact settles_reported _ _
          | none =>
              rw [told] at performed
              cases performed

theorem unused_of_parse {arguments unused : List String}
    (parsed : parse arguments = .ok (.request request unused)) : unused = [] := by
  unfold parse at parsed
  obtain ⟨forms, -, parsed⟩ := exists_of_bind_eq_ok parsed
  obtain ⟨asked, -, parsed⟩ := exists_of_bind_eq_ok parsed
  split at parsed
  · cases parsed
  · next noneUnused =>
    cases parsed
    cases unused with
    | nil => rfl
    | cons first rest => exact absurd rfl (noneUnused request first rest)

end

theorem run_debugged_of_overflows (symbols : SymbolLibrary Float) {world : World}
    {front back : List String} (takes : TakesOption front back)
    (noHelp : parse (front ++ back) ≠ .ok .help) (overflows : Overflows (front ++ back) world) :
    (run modelled symbols (front ++ "--debug" :: back)).run world =
      (.error (.rendering .tooDeep), world) := by
  obtain ⟨request, unused, loaded, circuit, parsed, loads, read, deep⟩ := overflows
  rw [run, parse_insert takes noHelp, parsed]
  exact perform_debugged_of_deep symbols request world loads read deep

/-- A run that is not asked for help and ends either has delivered the whole drawing of
its document with the status 0, or leaves nothing but messages and the status 1 or 2,
unless the file that it has opened could not be filled.  The option that shows the
journal, put in front of all arguments or wherever else an option can stand, makes no
difference but on the standard error, unless the document is nested too deeply to be
printed; then it cuts the run off. -/
theorem run_delivers_all_or_nothing (symbols : SymbolLibrary Float) (arguments : List String)
    (world : World) (noHelp : parse arguments ≠ .ok .help) :
    (∀ outcome after,
      (run modelled symbols arguments).run world = (.ok outcome, after) →
        (∃ request, parse arguments = .ok (.request request []) ∧
          Settles symbols request world after outcome) ∨
        (outcome.status = 2 ∧ outcome.output = "" ∧ outcome.errors ≠ "" ∧ after = world)) ∧
    ∀ front back, arguments = front ++ back → TakesOption front back →
      (Overflows arguments world → (run modelled symbols (front ++ "--debug" :: back)).run world =
        (.error (.rendering .tooDeep), world)) ∧
      (¬Overflows arguments world →
        apparent ((run modelled symbols (front ++ "--debug" :: back)).run world) =
          apparent ((run modelled symbols arguments).run world)) := by
  constructor
  · intro outcome after ends
    cases parsed : parse arguments with
    | error fault =>
        rw [run, parsed] at ends
        cases ends
        exact .inr ⟨rfl, rfl, errorLine_ne_empty _, rfl⟩
    | ok asked =>
        rw [run, parsed] at ends
        cases asked with
        | help => exact absurd parsed noHelp
        | request request unused =>
            obtain rfl := unused_of_parse parsed
            exact .inl ⟨request, rfl, settles_perform ends⟩
  · rintro front back rfl takes
    refine ⟨run_debugged_of_overflows symbols takes noHelp, fun shallow => ?_⟩
    rw [run, run, parse_insert takes noHelp]
    cases parsed : parse (front ++ back) with
    | error fault => rfl
    | ok asked =>
        cases asked with
        | help => rfl
        | request request unused =>
            refine perform_debugged symbols request world fun loaded circuit loads read => ?_
            by_contra deep
            exact shallow ⟨request, unused, loaded, circuit, parsed, loads, read,
              Bool.not_eq_true _ ▸ deep⟩

/-- The drawing of a document from the input takes the place of the settings that it
was drawn with, and the other file stays, with and without the journal. -/
theorem run_delivers_all_or_nothing_overwriting :
    let world : World :=
      ⟨{ entries := [(["c.yaml"], .file "svg: {margin: 10}\n".toUTF8),
          (["notes"], .file "R1".toUTF8)] }, "|R1\n"⟩
    let arguments := ["-c", "c.yaml", "--validate", "-o", "c.yaml"]
    parse arguments ≠ .ok .help ∧
      ∃ outcome after drawing access,
        (run modelled .standard arguments).run world = (.ok outcome, after) ∧
        outcome.status = 0 ∧ outcome.output = "" ∧
        after.files.at? ["c.yaml"] = some (.file (drawing ++ "\n").toUTF8 access) ∧
        after.files.at? ["notes"] = some (.file "R1".toUTF8) ∧
        ¬Overflows arguments world ∧
        apparent ((run modelled .standard
          ["-c", "c.yaml", "--debug", "--validate", "-o", "c.yaml"]).run world) =
            (.ok (0, ""), after) := by
  intro world arguments
  let request : Request := { output := some "c.yaml", config := some "c.yaml", validate := true }
  have parsed : parse arguments = .ok (.request request []) :=
    eq_ok_of_toOption (by decide +kernel)
  have noHelp : parse arguments ≠ .ok .help := by
    rw [parsed]
    nofun
  obtain ⟨settles, debugged⟩ := run_delivers_all_or_nothing .standard arguments world noHelp
  have succeeds : ((run modelled .standard arguments).run world).1.toOption.map Outcome.status =
      some 0 := by
    decide +kernel
  have settledValue : ∀ last ∈ ["-c", "c.yaml"].getLast?, ∀ option : CommandOption,
      formOf last = .ok (.option option none) → option.hasValue = false := by
    rintro _ ⟨⟩ option isOption
    have plain : formOf "c.yaml" = .ok .plain := eq_ok_of_toOption (by decide +kernel)
    cases plain.symm.trans isOption
  have shallow : ¬Overflows arguments world := by
    rintro ⟨other, unused, loaded, circuit, isParsed, loads, read, deep⟩
    rw [parsed] at isParsed
    cases isParsed
    have isShunt : Reading.parse "|R1" =
        .ok (.twoport [⟨.shunt, .element ⟨.resistor, some "1"⟩⟩]) :=
      eq_ok_of_toOption (by decide +kernel)
    have source : request.sourceFrom world.input = "|R1" := by decide +kernel
    rw [source, isShunt] at read
    cases read
    cases deep
  have told := (debugged ["-c", "c.yaml"] ["--validate", "-o", "c.yaml"] rfl
    ⟨by decide, settledValue, by decide⟩).2 shallow
  obtain ⟨outcome, ends, isZero⟩ := Option.map_eq_some_iff.mp succeeds
  generalize (run modelled .standard arguments).run world = ending at *
  obtain ⟨ended, after⟩ := ending
  obtain rfl : ended = .ok outcome := eq_ok_of_toOption ends
  rcases settles outcome after rfl with ⟨asked, isAsked, settled⟩ | ⟨isTwo, -⟩
  · obtain rfl : request = asked := by
      rw [parsed] at isAsked
      cases isAsked
      rfl
    cases settled with
    | told isOne | cut isOne => rw [isZero] at isOne; cases isOne
    | @drawn loaded drawing _ loads drawn delivers =>
        obtain ⟨-, noOutput, place, saves⟩ := delivers
        have isPlace : world.files.resolve (.ofText "c.yaml") = .ok ["c.yaml"] :=
          eq_ok_of_toOption (by decide +kernel)
        obtain rfl : place = ["c.yaml"] := Except.ok.inj (saves.leads.symm.trans isPlace)
        obtain ⟨access, holds⟩ := saves.holds
        refine ⟨noHelp, outcome, after, drawing, access, rfl, isZero, noOutput, holds,
          saves.others ["notes"] (by decide), shallow, ?_⟩
        exact told.trans (by simp [apparent, isZero, noOutput, Except.map])
  · rw [isZero] at isTwo
    cases isTwo

/-- Where there is room for five bytes, those of the drawing replace what was in the file. -/
example :
    let ended := (run modelled .standard ["-o", "old"]).run
      ⟨{ entries := [(["old"], .file "R1".toUTF8)], room := some 5 }, "R1"⟩
    ended.1.toOption.map Outcome.status = some 1 ∧
      ended.2.files.at? ["old"] = some (.file "<svg ".toUTF8) := by
  decide +kernel

/-! ## Documents that are nested deeply -/

/-- A run that shows the journal is cut off only by a document with more than a hundred
groups inside of one another. -/
theorem Overflows.nesting {arguments : List String} {world : World}
    (overflows : Overflows arguments world) :
    ∃ request unused, parse arguments = .ok (.request request unused) ∧
      100 < Grammar.nesting 0 (request.sourceFrom world.input).toList := by
  obtain ⟨request, unused, loaded, circuit, parsed, -, read, deep⟩ := overflows
  refine ⟨request, unused, parsed, ?_⟩
  by_contra few
  have printable := (Reading.isPrintable_and_isSizable read (Nat.le_of_not_lt few)).1
  rw [deep] at printable
  cases printable

/-- There are documents that are drawn, but not while the journal is shown. -/
theorem nested_cut_off {depth : Nat} (deep : 195 < depth) (few : depth ≤ 329) (world : World) :
    ∃ drawing,
      (run modelled .standard [(Circuit.nested depth).text]).run world =
        (.ok ⟨0, drawing ++ "\n", ""⟩, world) ∧
      (run modelled .standard ["--debug", (Circuit.nested depth).text]).run world =
        (.error (.rendering .tooDeep), world) := by
  have read : Reading.parse (Circuit.nested depth).text = .ok (Circuit.nested depth) :=
    Reading.parse_nested (few.trans (by decide))
  have undashed := Reading.head?_nested depth
  have small : (Circuit.nested depth).elements.length < 2 ^ 19 := by
    rw [Circuit.elements_nested]
    omega
  obtain ⟨drawing, -, -, printed⟩ :=
    small_document_printed read ((Circuit.isSizable_nested depth).mpr few) small
  refine ⟨drawing, printed undashed world, ?_⟩
  have parsed := parse_plain undashed
  have overflows : Overflows ([] ++ [(Circuit.nested depth).text]) world := by
    refine ⟨_, _, _, _, parsed, rfl, read, ?_⟩
    rw [← Bool.not_eq_true, Circuit.isPrintable_nested]
    exact Nat.not_le.mpr deep
  exact run_debugged_of_overflows .standard ⟨List.not_mem_nil, nofun, .inl rfl⟩
    (by rw [List.nil_append, parsed]; nofun) overflows

/-- The option that shows the journal changes how a run ends that draws 250 groups inside
of one another. -/
theorem debugged_run_cut_off :
    let document := (Circuit.nested 250).text
    let world : World := ⟨noFiles, ""⟩
    (∃ outcome, (run modelled .standard [document]).run world = (.ok outcome, world) ∧
        outcome.status = 0) ∧
      apparent ((run modelled .standard ["--debug", document]).run world) ≠
        apparent ((run modelled .standard [document]).run world) := by
  intro document world
  obtain ⟨drawing, printed, cutOff⟩ :=
    nested_cut_off (show 195 < 250 by decide) (by decide) world
  refine ⟨⟨_, printed, rfl⟩, ?_⟩
  rw [printed, cutOff]
  nofun

end CommandLine

end Schematic
