import Schematic.Number.Binary64
import Schematic.Number.Decimal
import Schematic.Settings.Basic
import Schematic.Settings.Raw

/-!
# The schema of settings

Every setting has a key and a rule for its values.  A key that breaks its rule,
or that no setting has, is an offence; all offences of some raw settings are
found, each with the path of its key and in the order of the keys.
-/

namespace Schematic

namespace Settings

/-- The keys of the spacing of a layout. -/
inductive LayoutKey where
  | parallelSpacing
  | shuntStub
  | shuntLead
  | railClearance
  | originX
  | originY
  | branchAlignment
  | validate
deriving DecidableEq, Repr

/-- The keys of the style of a drawing. -/
inductive DrawingKey where
  | margin
  | stroke
  | strokeWidth
  | fontSize
  | fontFamily
  | junctionRadius
  | terminalRadius
  | showLabels
deriving DecidableEq, Repr

/-- What the values of a setting must be.  A number can have a bound in tenths that it
must not be below. -/
inductive Rule where
  | number (leastTenths : Option Nat)
  | flag
  | filledText
  | oneOf (allowed : List String)
deriving DecidableEq, Repr

namespace LayoutKey

def all : List LayoutKey :=
  [.parallelSpacing, .shuntStub, .shuntLead, .railClearance, .originX, .originY,
    .branchAlignment, .validate]

def name : LayoutKey → String
  | .parallelSpacing => "parallel_spacing"
  | .shuntStub => "shunt_stub"
  | .shuntLead => "shunt_lead"
  | .railClearance => "rail_clearance"
  | .originX => "origin_x"
  | .originY => "origin_y"
  | .branchAlignment => "branch_alignment"
  | .validate => "validate"

def ofName? (name : String) : Option LayoutKey :=
  all.find? fun key => key.name == name

def rule : LayoutKey → Rule
  | .parallelSpacing => .number (some 0)
  | .shuntStub => .number (some 0)
  | .shuntLead => .number (some 0)
  | .railClearance => .number (some 0)
  | .originX => .number none
  | .originY => .number none
  | .branchAlignment => .oneOf [BranchAlignment.left.name, BranchAlignment.center.name]
  | .validate => .flag

end LayoutKey

namespace DrawingKey

def all : List DrawingKey :=
  [.margin, .stroke, .strokeWidth, .fontSize, .fontFamily, .junctionRadius,
    .terminalRadius, .showLabels]

def name : DrawingKey → String
  | .margin => "margin"
  | .stroke => "stroke"
  | .strokeWidth => "stroke_width"
  | .fontSize => "font_size"
  | .fontFamily => "font_family"
  | .junctionRadius => "junction_radius"
  | .terminalRadius => "terminal_radius"
  | .showLabels => "show_labels"

def ofName? (name : String) : Option DrawingKey :=
  all.find? fun key => key.name == name

def rule : DrawingKey → Rule
  | .margin => .number (some 0)
  | .stroke => .filledText
  | .strokeWidth => .number (some 1)
  | .fontSize => .number (some 10)
  | .fontFamily => .filledText
  | .junctionRadius => .number (some 0)
  | .terminalRadius => .number (some 0)
  | .showLabels => .flag

end DrawingKey

/-! ## Offences -/

/-- What is wrong with a key or its value. -/
inductive Offence where
  | unknownKey
  | nullValue
  | wrongType (expected : String)
  /-- The value is less than a bound that is given in tenths. -/
  | tooSmall (leastTenths : Nat)
  | emptyText
  | notAllowed (text : Text.Coded)
deriving DecidableEq, Repr

namespace Offence

def tenthsText (tenths : Nat) : String :=
  if tenths % 10 = 0 then toString (tenths / 10)
  else toString (tenths / 10) ++ "." ++ toString (tenths % 10)

def message : Offence → String
  | .unknownKey => "unknown field"
  | .nullValue => "null value not allowed"
  | .wrongType expected => "must be of " ++ expected ++ " type"
  | .tooSmall leastTenths => "min value is " ++ tenthsText leastTenths
  | .emptyText => "empty values not allowed"
  | .notAllowed text => "unallowed value " ++ text.shown

end Offence

/-- A key with what is wrong with it. -/
structure OffendingKey where
  /-- The path of the key, with a point between section and key. -/
  path : String
  offence : Offence
deriving DecidableEq, Repr

namespace OffendingKey

def text (offending : OffendingKey) : String :=
  "Field '" ++ offending.path ++ "': " ++ offending.offence.message

end OffendingKey

/-! ## Checking -/

/-- Whether a whole number is below a bound in tenths, taken in double
precision. -/
def wholeBelow (number : Int) (tenths : Nat) : Bool :=
  match (Number.Binary64.ofFloat (Scalar.tenths tenths)).value? with
  | some bound => (number : Rat) < bound
  | none => false

namespace Rule

/-- The name of the type of the values. -/
def typeName : Rule → String
  | .number _ => "number"
  | .flag => "boolean"
  | .filledText => "string"
  | .oneOf _ => "string"

/-- The offence of a number that is below its bound. -/
def boundOffence? (leastTenths : Option Nat) (below : Nat → Bool) : Option Offence :=
  (leastTenths.filter below).map .tooSmall

/-- What is wrong with a value, if anything is. -/
def offence? (rule : Rule) (raw : Raw) : Option Offence :=
  match rule, raw with
  | _, .null => some .nullValue
  | .number leastTenths, .whole count => boundOffence? leastTenths (wholeBelow count)
  | .number leastTenths, .number measured =>
      boundOffence? leastTenths fun tenths => measured < Scalar.tenths tenths
  | .flag, .flag _ => none
  | .filledText, .text text => if text.isEmpty then some .emptyText else none
  | .oneOf allowed, .text text =>
      if text.whole?.any allowed.contains then none else some (.notAllowed text)
  | rule, _ => some (.wrongType rule.typeName)

end Rule

/-- The sections of the settings. -/
inductive Section where
  | layout
  | drawing
deriving DecidableEq, Repr

namespace Section

def name : Section → String
  | .layout => "layout"
  | .drawing => "svg"

def ofKey? (key : Yaml.Atom) : Option Section :=
  [layout, drawing].find? fun section_ => key.isText section_.name

/-- The rule of a key of a section, if the section has the key. -/
def rule? (section_ : Section) (key : Yaml.Atom) : Option Rule := do
  let name ← key.text?
  match section_ with
  | .layout => (LayoutKey.ofName? name).map LayoutKey.rule
  | .drawing => (DrawingKey.ofName? name).map DrawingKey.rule

/-- What is wrong with a key of a section, if anything is. -/
def keyOffence? (section_ : Section) (key : Yaml.Atom) (raw : Raw) : Option Offence :=
  match section_.rule? key with
  | none => some .unknownKey
  | some rule => rule.offence? raw

end Section

/-! ## The tree of complaints -/

/-- A complaint about a key: what is wrong with it or its value, or what is wrong with
keys in the mapping that is its value. -/
inductive Complaint where
  | offence (offence : Offence)
  | inside (errors : List (Yaml.Atom × List Complaint))

/-- Complaints under the keys that they are about. -/
abbrev ErrorTree := List (Yaml.Atom × List Complaint)

/-- The complaints about the keys of a section. -/
def sectionErrors (section_ : Section) (entries : RawEntries) : ErrorTree :=
  entries.filterMap fun (key, raw) =>
    (section_.keyOffence? key raw).map fun offence => (key, [.offence offence])

/-- The complaints about a key of the whole. -/
def keyComplaints (key : Yaml.Atom) (raw : Raw) : List Complaint :=
  match Section.ofKey? key, raw with
  | none, _ => [.offence .unknownKey]
  | some section_, .mapping entries =>
      let errors := sectionErrors section_ entries
      if errors.isEmpty then [] else [.inside errors]
  | some _, .null => [.offence .nullValue]
  | some _, _ => [.offence (.wrongType "dict")]

/-- The complaints about all keys.  The tree has no keys that are right. -/
def errorTree (entries : RawEntries) : ErrorTree :=
  entries.filterMap fun (key, raw) =>
    let complaints := keyComplaints key raw
    if complaints.isEmpty then none else some (key, complaints)

/-! ## The list of offending keys -/

/-- Values in the order of the names of their keys. -/
def byName {α : Type} (entries : List (Yaml.Atom × α)) : List (Yaml.Atom × α) :=
  entries.mergeSort fun first second => decide (first.1.name ≤ second.1.name)

mutual

/-- The offending keys of a complaint about the key at the end of a path. -/
def Complaint.listed (path : String) : Complaint → List OffendingKey
  | .offence offence => [⟨path, offence⟩]
  | .inside errors => (byName (listedUnder (path ++ ".") errors)).flatMap Prod.snd

/-- The offending keys under each of some keys, whose paths begin in the same way. -/
def listedUnder (start : String) :
    List (Yaml.Atom × List Complaint) → List (Yaml.Atom × List OffendingKey)
  | [] => []
  | (key, complaints) :: rest =>
      (key, listedAll (start ++ key.name.shown) complaints) :: listedUnder start rest

/-- The offending keys of some complaints about the key at the end of a path. -/
def listedAll (path : String) : List Complaint → List OffendingKey
  | [] => []
  | complaint :: rest => complaint.listed path ++ listedAll path rest

end

namespace ErrorTree

/-- The offending keys of a tree in a list, at each level in the order of their names. -/
def listed (errors : ErrorTree) : List OffendingKey :=
  (byName (listedUnder "" errors)).flatMap Prod.snd

end ErrorTree

mutual

/-- Whether a complaint is about keys of which one passes a test. -/
def Complaint.hasKey (test : Yaml.Atom → Bool) : Complaint → Bool
  | .offence _ => false
  | .inside errors => hasKeyIn test errors

/-- Whether a key passes a test, or one further inside does. -/
def hasKeyIn (test : Yaml.Atom → Bool) : List (Yaml.Atom × List Complaint) → Bool
  | [] => false
  | (key, complaints) :: rest =>
      test key || haveKey test complaints || hasKeyIn test rest

/-- Whether some complaints are about keys of which one passes a test. -/
def haveKey (test : Yaml.Atom → Bool) : List Complaint → Bool
  | [] => false
  | complaint :: rest => complaint.hasKey test || haveKey test rest

end

/-- All offending keys, in the order of the keys. -/
def offences (entries : RawEntries) : List OffendingKey :=
  (errorTree entries).listed

/-! ## Assigning values -/

/-- A number that is too large for double precision. -/
structure TooLarge where
deriving DecidableEq, Repr

def wholeFloat (number : Int) : Except TooLarge Float :=
  let converted := Float.ofInt number
  if converted.isFinite then .ok converted else .error {}

/-- The number that a value stands for; other values leave it as it was. -/
def numberOf (previous : Float) : Raw → Except TooLarge Float
  | .whole number => wholeFloat number
  | .number number => .ok number
  | _ => .ok previous

/-- The truth value that a value stands for. -/
def flagOf (previous : Bool) : Raw → Bool
  | .flag holds => holds
  | _ => previous

def textOf (previous : Text.Coded) : Raw → Text.Coded
  | .text text => text
  | _ => previous

def LayoutKey.assign (settings : LayoutSettings Float) (raw : Raw) :
    LayoutKey → Except TooLarge (LayoutSettings Float)
  | .parallelSpacing => do
      return { settings with parallelSpacing := ← numberOf settings.parallelSpacing raw }
  | .shuntStub => do return { settings with shuntStub := ← numberOf settings.shuntStub raw }
  | .shuntLead => do return { settings with shuntLead := ← numberOf settings.shuntLead raw }
  | .railClearance => do
      return { settings with railClearance := ← numberOf settings.railClearance raw }
  | .originX => do return { settings with originX := ← numberOf settings.originX raw }
  | .originY => do return { settings with originY := ← numberOf settings.originY raw }
  | .branchAlignment =>
      return { settings with
        branchAlignment := .ofName (textOf settings.branchAlignment.name raw).shown }
  | .validate => return { settings with validate := flagOf settings.validate raw }

def DrawingKey.assign (settings : DrawingSettings Float) (raw : Raw) :
    DrawingKey → Except TooLarge (DrawingSettings Float)
  | .margin => do return { settings with margin := ← numberOf settings.margin raw }
  | .stroke => return { settings with stroke := textOf settings.stroke raw }
  | .strokeWidth => do
      return { settings with strokeWidth := ← numberOf settings.strokeWidth raw }
  | .fontSize => do return { settings with fontSize := ← numberOf settings.fontSize raw }
  | .fontFamily => return { settings with fontFamily := textOf settings.fontFamily raw }
  | .junctionRadius => do
      return { settings with junctionRadius := ← numberOf settings.junctionRadius raw }
  | .terminalRadius => do
      return { settings with terminalRadius := ← numberOf settings.terminalRadius raw }
  | .showLabels => return { settings with showLabels := flagOf settings.showLabels raw }

/-- Sets values of the spacing under their keys. -/
def assignLayout (settings : LayoutSettings Float) (entries : RawEntries) :
    Except TooLarge (LayoutSettings Float) :=
  entries.foldlM (fun settings (key, raw) =>
    match key.text?.bind LayoutKey.ofName? with
    | some key => key.assign settings raw
    | none => .ok settings) settings

/-- Sets values of the style under their keys. -/
def assignDrawing (settings : DrawingSettings Float) (entries : RawEntries) :
    Except TooLarge (DrawingSettings Float) :=
  entries.foldlM (fun settings (key, raw) =>
    match key.text?.bind DrawingKey.ofName? with
    | some key => key.assign settings raw
    | none => .ok settings) settings

/-- The entries of a section; a section that is not there has none. -/
def sectionEntries (section_ : Section) (entries : RawEntries) : RawEntries :=
  match entries.under? section_.name with
  | some (.mapping entries) => entries
  | _ => []

def assign (entries : RawEntries) : Except TooLarge (Settings Float) := do
  let layout ← assignLayout .standard (sectionEntries .layout entries)
  let drawing ← assignDrawing .standard (sectionEntries .drawing entries)
  return ⟨layout, drawing⟩

end Settings

end Schematic
