import Schematic.Diagnostic
import Schematic.Journal
import Schematic.Settings.Order
import Schematic.Storage.Files
import Schematic.Yaml.Value

/-!
# Reading settings

Settings are read from raw values or from a file that holds a YAML document.
What is wrong with them is told in a report that lists all offending keys; a
value that is right but cannot be used stops the reading without a report.
-/

namespace Schematic

namespace Settings

/-- What can be told a user about settings that are not right. -/
inductive Cause where
  | notFound (path : String)
  | denied (path : String)
  /-- The file is no YAML document. -/
  | malformed
  | noMapping
  | offending (keys : List OffendingKey)
deriving DecidableEq, Repr

/-- What is wrong with settings, and the file that they come from. -/
structure Problem where
  cause : Cause
  file : Option String := none
deriving DecidableEq, Repr

namespace Problem

def summary (problem : Problem) : String :=
  match problem.cause with
  | .notFound path => "Configuration file not found at path: " ++ path
  | .denied path =>
      "Permission denied when trying to read file: " ++ Storage.Fault.denied.message path
  | .malformed => "Invalid YAML syntax:"
  | .noMapping => "The root of the configuration file must be a mapping."
  | .offending _ => "The configuration does not conform to the required schema."

def keyLines (problem : Problem) : List String :=
  match problem.cause with
  | .offending keys => keys.map fun key => "  - " ++ key.text
  | _ => []

def place (problem : Problem) : String :=
  match problem.file with
  | some file => " in file '" ++ file ++ "'"
  | none => ""

def message (problem : Problem) : String :=
  let head := "Configuration error" ++ problem.place ++ ": " ++ problem.summary
  Text.joinLines (head :: problem.keyLines)

def details (problem : Problem) : String :=
  let lines := problem.keyLines
  if lines.isEmpty then problem.summary
  else
    problem.summary ++ "\nSee details for the issue(s) below:\n\n" ++ Text.joinLines lines

def diagnostic (problem : Problem) : Diagnostic where
  heading := "Configuration Error"
  details := problem.details
  suggestion :=
    "Correct the listed keys. Only the 'layout' and 'svg' sections with their " ++
      "documented keys are allowed."
  locus := { sourceFile := problem.file }

end Problem

/-- Why there are no settings. -/
inductive Failure where
  /-- Something that is told to the user. -/
  | problem (problem : Problem)
  /-- The raw settings are no mapping. -/
  | notEntries
  /-- The offending keys cannot be put in an order. -/
  | noOrder
  /-- An offending key is a number with more digits than are ever written. -/
  | longNumber
  | tooLarge
  /-- The file is no text. -/
  | undecodable
  /-- The document has no value. -/
  | document (fault : Yaml.Fault)
  | longName
  /-- A directory on the way to the file lets nobody through. -/
  | closed
deriving DecidableEq, Repr

def ofEntries (file : Option String) (entries : RawEntries) :
    Except Failure (Settings Float) :=
  let keys := offences entries
  if keys.isEmpty then
    match assign entries with
    | .ok settings => .ok settings
    | .error _ => .error .tooLarge
  else if offencesHaveOrder entries then .error (.problem ⟨.offending keys, file⟩)
  else .error .noOrder

/-- Whether a key is a number with more digits than are ever written. -/
def isLongNumber : Yaml.Atom → Bool
  | .whole count => Nat.pow 10 Yaml.ScalarValue.decimalLimit ≤ count.natAbs
  | _ => false

/-- The settings that some entries stand for.  What is wrong with them can be told only
if all offending keys can be written. -/
def ofMapping (file : Option String) (entries : RawEntries) :
    Except Failure (Settings Float) :=
  match ofEntries file entries with
  | .error (.problem problem) =>
      if hasKeyIn isLongNumber (errorTree entries) then .error .longNumber
      else .error (.problem problem)
  | result => result

/-- The settings that a raw value stands for. -/
def ofRaw (raw : Raw) : Except Failure (Settings Float) :=
  match raw with
  | .mapping entries => ofMapping none entries
  | _ => .error .notEntries

/-! ## Files -/

def rawAtom : Yaml.Atom → Raw
  | .null => .null
  | .truth holds => .flag holds
  | .whole count => .whole count
  | .number measured => .number measured
  | .nan => .number (0 / 0)
  | .text content => .text content
  | .date _ => .other
  | .bytes _ => .other

/-- A value of a document as a raw value, with mappings that are nested up to
`depth` deep; no setting is a mapping that lies deeper. -/
def rawValue (document : Yaml.ValuedDocument) : (depth : Nat) → Yaml.NodeId → Raw
  | depth, id =>
      match depth, document.value? id with
      | _, some (.atom atom) => rawAtom atom
      | depth + 1, some (.mapping entries) =>
          .mapping (entries.map fun entry => (entry.name, rawValue document depth entry.value))
      | _, _ => .other

/-- How deep settings are nested: sections, and settings in them. -/
def settingsDepth : Nat := 2

/-- Settings that were read from a file, with what the journal says. -/
structure Loaded where
  settings : Settings Float
  journal : Journal

/-- The settings that a document stands for.  An empty document leaves all
settings as they are. -/
def ofDocument (file : String) (document : Option Yaml.ValuedDocument) :
    Except Failure Loaded := do
  match document.map fun document => rawValue document settingsDepth document.root with
  | some (.mapping entries) =>
      let settings ← ofMapping (some file) entries
      return ⟨settings, [⟨.info, .settings, "Loaded configuration from " ++ file⟩]⟩
  | none => return empty
  | some .null => return empty
  | some _ => throw (.problem ⟨.noMapping, some file⟩)
where
  /-- The standard settings. -/
  empty : Loaded :=
    ⟨.standard, [⟨.info, .settings,
      "Configuration file " ++ file ++ " is empty; using defaults."⟩]⟩

/-- A text whose lines all end in line feeds. -/
def withLineFeeds : List Char → List Char
  | [] => []
  | '\r' :: '\n' :: rest => '\n' :: withLineFeeds rest
  | '\r' :: rest => '\n' :: withLineFeeds rest
  | char :: rest => char :: withLineFeeds rest

/-- The settings that the bytes of a file stand for. -/
def ofFile (file : String) (bytes : ByteArray) : Except Failure Loaded :=
  match String.fromUTF8? bytes with
  | none => .error .undecodable
  | some text =>
      match Yaml.read (String.ofList (withLineFeeds text.toList)) with
      | .ok document => ofDocument file document
      | .error .malformed => .error (.problem ⟨.malformed, some file⟩)
      | .error fault => .error (.document fault)

/-- The settings of the file at a path, from what is found there. -/
def ofPlace (path : Storage.Path) (found : Storage.Found) : Except Failure Loaded :=
  match found with
  | .file bytes => ofFile path.text bytes
  | .locked => .error (.problem ⟨.denied path.text, some path.text⟩)
  | .noFile => .error (.problem ⟨.notFound path.text, some path.text⟩)
  | .closed => .error .closed
  | .tooLong => .error .longName

end Settings

end Schematic
