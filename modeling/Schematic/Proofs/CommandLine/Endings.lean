import Schematic.CommandLine.Run
import Schematic.Proofs.Alignment.Printed
import Schematic.Proofs.Drawing.Faults
import Schematic.Proofs.Reading.Shallow
import Schematic.Proofs.Rendering
import Schematic.Proofs.Settings.Unusable
import Schematic.Proofs.Storage.Writing

/-!
# How runs end

A run ends with a status, or it is cut off.  This file finds out what cuts it
off: settings that cannot be used, a document that is nested too deeply, a number
of the drawing that cannot be written, a drawing that has no encoding, or a path
that no file has.  All other problems end in a message and a status of their own.
-/

namespace Schematic

namespace CommandLine

/-! ## What a request leads to -/

namespace Request

/-- The settings that a request names, in some files. -/
def settingsIn (request : Request) (files : Storage.Files) :
    Except Settings.Failure Settings.Loaded :=
  match filled? request.config with
  | none => .ok ⟨.standard, []⟩
  | some config =>
      Settings.ofPlace (.ofText config) (files.find (.ofText config))

/-- The document of a request, with what comes from the standard input. -/
def sourceFrom (request : Request) (input : String) : String :=
  request.document.getD (Text.withoutLineFeeds input)

/-- The renderer for a request with the settings that it names. -/
def renderer (request : Request) (symbols : SymbolLibrary Float) (loaded : Settings.Loaded) :
    Renderer Float :=
  ⟨symbols, withRequest request loaded.settings, request.debug⟩

/-- What a request wants to write to can be opened: the standard output, or a file. -/
def Opens (request : Request) (files : Storage.Files) : Prop :=
  ∀ output, filled? request.output = some output →
    (Storage.Path.ofText output).hasNull = false ∧
      ∃ opened, files.create (.ofText output) = .ok opened

end Request

variable (symbols : SymbolLibrary Float) (request : Request) (world : World)

theorem run_loadSettings :
    (loadSettings modelled request).run world =
      pure (request.settingsIn world.files, world) := by
  unfold loadSettings Request.settingsIn
  cases filled? request.config with
  | none => rfl
  | some config => rfl

theorem run_document :
    (document modelled request).run world = pure (request.sourceFrom world.input, world) := by
  unfold document Request.sourceFrom
  cases request.document with
  | none => rfl
  | some text => rfl

/-- A delivery either prints the drawing or writes it to a file, and only a file that
is written changes any. -/
theorem run_deliver (journal : Journal) (drawing : Text.Coded) :
    (deliver modelled request journal drawing).run world =
      match filled? request.output with
      | none =>
          match drawing.whole? with
          | some content => (.ok ⟨0, content ++ "\n", shown request journal⟩, world)
          | none => (.error .unencodable, world)
      | some output =>
          let path := Storage.Path.ofText output
          if path.hasNull then (.error .unusablePath, world)
          else
            let (fate, files) := world.files.write path (drawing ++ "\n")
            let after := { world with files }
            match fate with
            | .all =>
                let written : LogEntry := ⟨.info, .command, "Wrote " ++ path.text⟩
                (.ok ⟨0, "", shown request (journal ++ [written])⟩, after)
            | .failed fault =>
                (.ok ⟨1, "", shown request journal ++
                  errorLine ("failed to write " ++ path.text ++ ": " ++ fault.message path.text)⟩,
                  after)
            | .unencodable => (.error .unencodable, after) := by
  unfold deliver
  cases filled? request.output with
  | none =>
      dsimp only
      rw [Text.Coded.whole?_append]
      cases drawing.whole? <;> rfl
  | some output =>
      dsimp only
      cases (Storage.Path.ofText output).hasNull with
      | true => rfl
      | false =>
          rw [if_neg Bool.false_ne_true, if_neg Bool.false_ne_true, StateT.run_bind]
          dsimp only [modelled]
          rw [StateT.run_bind, StateT.run_get, pure_bind]
          dsimp only
          generalize world.files.write (.ofText output) (drawing ++ "\n") = written
          obtain ⟨fate, after⟩ := written
          cases fate <;> rfl

/-- A request leads to a drawing that is delivered, to a report, or to a failure that
is not told; only a delivery changes any file. -/
theorem run_perform :
    (perform modelled symbols request).run world =
      match request.settingsIn world.files with
      | .error (.problem problem) =>
          (.ok (reported request [opening] problem.diagnostic), world)
      | .error failure => (.error (.settings failure), world)
      | .ok loaded =>
          let (result, entries) :=
            ((request.renderer symbols loaded).render (request.sourceFrom world.input)).run
          let journal := opening :: loaded.journal ++ entries
          match result with
          | .ok drawing => (deliver modelled request journal drawing).run world
          | .error failure =>
              match failure.diagnostic? with
              | some (diagnostic, _) => (.ok (reported request journal diagnostic), world)
              | none => (.error (.rendering failure), world) := by
  rw [perform, StateT.run_bind, run_loadSettings, pure_bind]
  cases request.settingsIn world.files with
  | error failure => cases failure <;> rfl
  | ok loaded =>
      dsimp only
      rw [StateT.run_bind, run_document, pure_bind]
      dsimp only [Request.renderer]
      generalize (Renderer.render ⟨symbols, withRequest request loaded.settings, request.debug⟩
        (request.sourceFrom world.input)).run = outcome
      obtain ⟨result, entries⟩ := outcome
      cases result with
      | ok drawing => rfl
      | error failure =>
          dsimp only
          cases failure.diagnostic? <;> rfl

/-! ## Failures that are not told -/

/-- What cuts a run for a request off. -/
inductive Breaks (world : World) (request : Request) : Interruption → Prop where
  /-- The settings that the request names cannot be used. -/
  | settings {config : String} {failure : Settings.Failure} :
      filled? request.config = some config →
      Settings.Unusable (world.files.find (.ofText config)) failure →
      Breaks world request (.settings failure)
  /-- A number of the drawing is infinite or undefined. -/
  | drawing {loaded : Settings.Loaded} {fault : DrawingFault} :
      request.settingsIn world.files = .ok loaded →
      (request.renderer .standard loaded).outcome (request.sourceFrom world.input) =
        .error (.drawing fault) →
      fault.IsNumeric → Breaks world request (.rendering (.drawing fault))
  /-- The document is nested too deeply, with more than a hundred groups inside of one
  another. -/
  | tooDeep {loaded : Settings.Loaded} :
      request.settingsIn world.files = .ok loaded →
      (request.renderer .standard loaded).outcome (request.sourceFrom world.input) =
        .error .tooDeep →
      100 < Grammar.nesting 0 (request.sourceFrom world.input).toList →
      Breaks world request (.rendering .tooDeep)
  /-- The drawing should be written to a path that no file has. -/
  | output {loaded : Settings.Loaded} {drawing : Text.Coded} {output : String} :
      request.settingsIn world.files = .ok loaded →
      (request.renderer .standard loaded).outcome (request.sourceFrom world.input) =
        .ok drawing →
      filled? request.output = some output → (Storage.Path.ofText output).hasNull = true →
      Breaks world request .unusablePath
  /-- The colour or the font has halves of characters, and so has the drawing when it is to
  be written. -/
  | unencodable {loaded : Settings.Loaded} {drawing : Text.Coded} :
      request.settingsIn world.files = .ok loaded →
      (request.renderer .standard loaded).outcome (request.sourceFrom world.input) =
        .ok drawing →
      ¬loaded.settings.drawing.HasEncoding → drawing.whole? = none →
      request.Opens world.files → Breaks world request .unencodable

end CommandLine

end Schematic
