import Schematic.CommandLine.Arguments
import Schematic.Rendering
import Schematic.Settings.Read
import Schematic.Storage.Files

/-!
# Running the command line

A run reads its arguments, its settings and a document, and writes the drawing
to a file or to the standard output.  Everything that goes wrong on the way and
can be told to the user ends the run with a message on the standard error; the
rest cuts it off.

A run asks its surroundings for files and input through a host, so that it can
run on modelled files as well as on real ones.
-/

namespace Schematic

namespace CommandLine

/-- What a run can ask of its surroundings. -/
structure Host (m : Type → Type) where
  find : Storage.Path → m Storage.Found
  input : m String
  write : Storage.Path → Text.Coded → m Storage.Written

/-- How a run ends by itself: the exit status, and what was written to the standard
output and the standard error. -/
structure Outcome where
  status : Nat
  output : String
  errors : String
deriving DecidableEq, Repr

/-- Why a run is cut off without an outcome. -/
inductive Interruption where
  | settings (failure : Settings.Failure)
  | rendering (failure : RenderFailure)
  /-- The path of a file to write has a character that no path has. -/
  | unusablePath
  /-- The drawing has halves of characters, which have no encoding. -/
  | unencodable

def commandName : String := "circmark-svg"

def errorLine (message : String) : String :=
  commandName ++ ": error: " ++ message ++ "\n"

def helpText : String :=
  "usage: " ++ commandName ++
    " [-h] [-o OUTPUT] [-c CONFIG] [--validate] [--debug] [circmark]\n"

def shown (request : Request) (journal : Journal) : String :=
  if request.debug then journal.text else ""

/-- The value of an option that is there and not empty. -/
def filled? (value : Option String) : Option String :=
  value.filter (!·.isEmpty)

section

variable {m : Type → Type} [Monad m]

def loadSettings (host : Host m) (request : Request) :
    m (Except Settings.Failure Settings.Loaded) := do
  match filled? request.config with
  | none => return .ok ⟨.standard, []⟩
  | some config =>
      let path := Storage.Path.ofText config
      return Settings.ofPlace path (← host.find path)

/-- Settings that check the alignment if a request says so. -/
def withRequest (request : Request) (settings : Settings Float) : Settings Float :=
  if request.validate then
    { settings with layout := { settings.layout with validate := true } }
  else settings

def document (host : Host m) (request : Request) : m String := do
  match request.document with
  | some document => return document
  | none => return Text.withoutLineFeeds (← host.input)

/-- Writes a drawing where a request wants it. -/
def deliver (host : Host m) (request : Request) (journal : Journal) (drawing : Text.Coded) :
    m (Except Interruption Outcome) := do
  let text := drawing ++ "\n"
  match filled? request.output with
  | none =>
      match text.whole? with
      | some output => return .ok ⟨0, output, shown request journal⟩
      | none => return .error .unencodable
  | some output =>
      let path := Storage.Path.ofText output
      if path.hasNull then
        return .error .unusablePath
      else
        match ← host.write path text with
        | .all =>
            let written : LogEntry := ⟨.info, .command, "Wrote " ++ path.text⟩
            return .ok ⟨0, "", shown request (journal ++ [written])⟩
        | .failed fault =>
            return .ok ⟨1, "", shown request journal ++
              errorLine ("failed to write " ++ path.text ++ ": " ++ fault.message path.text)⟩
        | .unencodable => return .error .unencodable

/-- The outcome of a run that ends with a report. -/
def reported (request : Request) (journal : Journal) (diagnostic : Diagnostic) : Outcome :=
  ⟨1, "", shown request journal ++ diagnostic.report ++ "\n"⟩

/-- The entry of the journal with which every run begins. -/
def opening : LogEntry := ⟨.debug, .opening, "Logging configured."⟩

def perform (host : Host m) (symbols : SymbolLibrary Float) (request : Request) :
    m (Except Interruption Outcome) := do
  match ← loadSettings host request with
  | .error (.problem problem) => return .ok (reported request [opening] problem.diagnostic)
  | .error failure => return .error (.settings failure)
  | .ok loaded =>
      let renderer : Renderer Float :=
        ⟨symbols, withRequest request loaded.settings, request.debug⟩
      let source ← document host request
      let (result, entries) := (renderer.render source).run
      let journal := opening :: loaded.journal ++ entries
      match result with
      | .ok drawing => deliver host request journal drawing
      | .error failure =>
          match failure.diagnostic? with
          | some (diagnostic, _) => return .ok (reported request journal diagnostic)
          | none => return .error (.rendering failure)

def run (host : Host m) (symbols : SymbolLibrary Float) (arguments : List String) :
    m (Except Interruption Outcome) := do
  match parse arguments with
  | .error fault => return .ok ⟨2, "", errorLine fault.message⟩
  | .ok .help => return .ok ⟨0, helpText, ""⟩
  | .ok (.request request _) => perform host symbols request

end

/-! ## A modelled host -/

/-- All files, and what comes from the standard input. -/
structure World where
  files : Storage.Files
  input : String := ""

def modelled : Host (StateM World) where
  find path := return (← get).files.find path
  input := return (← get).input
  write path text := do
    let world ← get
    let (written, files) := world.files.write path text
    set { world with files }
    return written

end CommandLine

end Schematic
