import Schematic.Text.DecimalDigit
import Schematic.Text.Quoted

/-!
# Arguments of the command line

The arguments are options, with or without a value, and one document.  A long
option may be cut short as long as it stays unique, and a value may be written
into the same argument.  Two dashes alone make plain arguments of all that
follow; a number and a text with a space are plain arguments even behind a
dash.
-/

namespace Schematic

namespace CommandLine

/-- The options. -/
inductive CommandOption where
  | help
  | output
  | config
  | validate
  | debug
deriving DecidableEq, Repr

namespace CommandOption

def all : List CommandOption := [.help, .output, .config, .validate, .debug]

def longName : CommandOption → String
  | .help => "--help"
  | .output => "--output"
  | .config => "--config"
  | .validate => "--validate"
  | .debug => "--debug"

/-- The letter of an option, if it has one. -/
def letter? : CommandOption → Option Char
  | .help => some 'h'
  | .output => some 'o'
  | .config => some 'c'
  | .validate => none
  | .debug => none

def ofLetter? (letter : Char) : Option CommandOption :=
  all.find? fun option => option.letter? == some letter

/-- The short name of an option, if it has one. -/
def shortName? (option : CommandOption) : Option String :=
  option.letter?.map fun letter => String.ofList ['-', letter]

def ofName? (name : String) : Option CommandOption :=
  all.find? fun option => option.longName == name || option.shortName? == some name

def names (option : CommandOption) : String :=
  "/".intercalate (option.shortName?.toList ++ [option.longName])

def hasValue : CommandOption → Bool
  | .output => true
  | .config => true
  | _ => false

end CommandOption

/-- What is wrong with the arguments. -/
inductive UsageFault where
  /-- A name could be short for several options. -/
  | ambiguous (argument : String) (options : List CommandOption)
  | missingValue (option : CommandOption)
  | unusedValue (option : CommandOption) (value : String)
  | unrecognized (arguments : List String)
deriving DecidableEq, Repr

namespace UsageFault

def message : UsageFault → String
  | .ambiguous argument options =>
      "ambiguous option: " ++ argument ++ " could match " ++
        ", ".intercalate (options.map CommandOption.longName)
  | .missingValue option => "argument " ++ option.names ++ ": expected one argument"
  | .unusedValue option value =>
      "argument " ++ option.names ++ ": ignored explicit argument " ++ Text.quoted value
  | .unrecognized arguments => "unrecognized arguments: " ++ " ".intercalate arguments

end UsageFault

/-! ## Single arguments -/

/-- What an argument is by itself. -/
inductive ArgumentForm where
  /-- An option, possibly with something written behind its name. -/
  | option (option : CommandOption) (value : Option String)
  /-- Something like an option that is none. -/
  | unknown
  | plain
  /-- The two dashes in front of plain arguments. -/
  | separator
deriving DecidableEq, Repr

/-- An argument with its form. -/
structure Argument where
  text : String
  form : ArgumentForm
deriving DecidableEq, Repr

/-- A name and what stands behind an equals sign. -/
def splitAtEquals (text : List Char) : List Char × Option (List Char) :=
  match text.dropWhile (· != '=') with
  | [] => (text, none)
  | _ :: value => (text.takeWhile (· != '='), some value)

/-- Whether a text behind a dash is a number, with or without a point.  A line
feed at the end does not count. -/
def isNegativeNumber (behind : List Char) : Bool :=
  let text :=
    match behind.reverse with
    | '\n' :: rest => rest.reverse
    | _ => behind
  let fraction := text.dropWhile Text.isDecimalDigit
  match fraction with
  | [] => !text.isEmpty
  | '.' :: places => !places.isEmpty && places.all Text.isDecimalDigit
  | _ => false

/-- The form of an argument that begins with a dash and is no name of an
option. -/
def dashedForm (text : List Char) : Except UsageFault ArgumentForm :=
  let otherwise : ArgumentForm :=
    if isNegativeNumber (text.drop 1) || text.contains ' ' then .plain else .unknown
  match text with
  | '-' :: '-' :: _ =>
      let (name, value) := splitAtEquals text
      match CommandOption.all.filter fun option => name.isPrefixOf option.longName.toList with
      | [] => .ok otherwise
      | [option] => .ok (.option option (value.map String.ofList))
      | options => .error (.ambiguous (String.ofList text) options)
  | '-' :: letter :: rest =>
      match CommandOption.ofLetter? letter with
      | some option => .ok (.option option (some (String.ofList rest)))
      | none => .ok otherwise
  | _ => .ok otherwise

def formOf (text : String) : Except UsageFault ArgumentForm :=
  match text.toList with
  | '-' :: [] => .ok .plain
  | '-' :: rest =>
      match CommandOption.ofName? text with
      | some option => .ok (.option option none)
      | none =>
          match splitAtEquals ('-' :: rest) with
          | (name, some value) =>
              match CommandOption.ofName? (String.ofList name) with
              | some option => .ok (.option option (some (String.ofList value)))
              | none => dashedForm ('-' :: rest)
          | _ => dashedForm ('-' :: rest)
  | _ => .ok .plain

def formsOf : List String → Except UsageFault (List Argument)
  | [] => .ok []
  | text :: rest =>
      if text = "--" then
        .ok (⟨text, .separator⟩ :: rest.map fun plain => ⟨plain, .plain⟩)
      else do
        let form ← formOf text
        let others ← formsOf rest
        return ⟨text, form⟩ :: others

/-! ## All arguments -/

/-- What the arguments ask for. -/
structure Request where
  /-- The document, unless it comes from the standard input. -/
  document : Option String := none
  output : Option String := none
  config : Option String := none
  validate : Bool := false
  debug : Bool := false
deriving DecidableEq, Repr

namespace Request

def set (request : Request) (option : CommandOption) (value : String) : Request :=
  match option with
  | .output => { request with output := some value }
  | .config => { request with config := some value }
  | .validate => { request with validate := true }
  | .debug => { request with debug := true }
  | .help => request

end Request

/-- What has been made of the arguments so far. -/
structure Gathering where
  request : Request := {}
  /-- Whether the place of the document is taken. -/
  placed : Bool := false
  /-- The arguments without a use, the last one first. -/
  unused : List String := []
deriving DecidableEq, Repr

/-- What comes of the arguments. -/
inductive Parsed where
  | help
  /-- Something is asked for, and some arguments have no use. -/
  | request (request : Request) (unused : List String)
deriving DecidableEq, Repr

/-- Finds help among letters that were written into one argument behind the one
for help.  An option with a value ends them; `following` says whether a plain
argument comes next. -/
def helpLetters (following : Bool) : List Char → Except UsageFault Parsed
  | [] => .ok .help
  | letter :: rest =>
      match CommandOption.ofLetter? letter with
      | some .help => helpLetters following rest
      | some option =>
          if rest.isEmpty && !following then .error (.missingValue option) else .ok .help
      | none => .error (.unusedValue .help (String.ofList (letter :: rest)))

def plainNext : List Argument → Bool
  | argument :: _ => argument.form == .plain
  | [] => false

/-- Behind the document the two dashes have no use. -/
def withoutSeparator : List Argument → List Argument
  | ⟨_, .separator⟩ :: rest => rest
  | arguments => arguments

theorem withoutSeparator_length_le (arguments : List Argument) :
    (withoutSeparator arguments).length ≤ arguments.length := by
  unfold withoutSeparator
  split <;> simp

/-- Takes a document, if its place is free. -/
def Gathering.place (gathering : Gathering) (text : String) : Gathering :=
  if gathering.placed then { gathering with unused := text :: gathering.unused }
  else
    { gathering with
      request := { gathering.request with document := some text }, placed := true }

/-- Makes something of the arguments one after the other.  The first plain
argument is the document, and the two dashes on either side of it count as part
of it. -/
def gather (gathering : Gathering) : List Argument → Except UsageFault Parsed
  | [] => .ok (.request gathering.request gathering.unused.reverse)
  | ⟨_, .option .help none⟩ :: _ => .ok .help
  | ⟨text, .option .help (some value)⟩ :: rest =>
      if text.startsWith "--" || value.isEmpty then .error (.unusedValue .help value)
      else helpLetters (plainNext rest) value.toList
  | ⟨_, .option option (some value)⟩ :: rest =>
      if option.hasValue then
        gather { gathering with request := gathering.request.set option value } rest
      else .error (.unusedValue option value)
  | ⟨_, .option option none⟩ :: rest =>
      if option.hasValue then
        match rest with
        | ⟨value, .plain⟩ :: rest =>
            gather { gathering with request := gathering.request.set option value } rest
        | _ => .error (.missingValue option)
      else gather { gathering with request := gathering.request.set option "" } rest
  | ⟨text, .unknown⟩ :: rest =>
      gather { gathering with unused := text :: gathering.unused } rest
  | ⟨text, .plain⟩ :: rest =>
      gather (gathering.place text) (if gathering.placed then rest else withoutSeparator rest)
  | ⟨text, .separator⟩ :: rest =>
      gather
        (if gathering.placed then { gathering with unused := text :: gathering.unused }
        else gathering) rest
termination_by arguments => arguments.length
decreasing_by
  all_goals simp_wf
  all_goals
    first
    | omega
    | (have shorter := withoutSeparator_length_le rest
       split <;> omega)

def parse (arguments : List String) : Except UsageFault Parsed := do
  let parsed ← gather {} (← formsOf arguments)
  match parsed with
  | .request _ (argument :: others) => throw (.unrecognized (argument :: others))
  | parsed => return parsed

end CommandLine

end Schematic
