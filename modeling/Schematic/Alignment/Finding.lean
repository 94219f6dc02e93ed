import Schematic.Layout.Basic
import Schematic.Text.Template

/-!
# Findings about the alignment of a layout

In a good layout the ports of neighbours meet, every branch reaches its buses,
a twoport hangs together between its signal line and its rail, and all wires
are horizontal or vertical.  A finding is one place where this fails.  This
file holds the findings and their wording.
-/

namespace Schematic

namespace Alignment

/-- The two ends of a circuit. -/
inductive Side where
  | left
  | right
deriving DecidableEq, Repr

namespace Side

def name : Side → String
  | .left => "left"
  | .right => "right"

end Side

/-- The kinds of findings. -/
inductive FindingKind where
  | memberOffLine
  | memberGap
  | leftBranchOffBus
  | rightBranchOffBus
  | portOffBus
  | seriesOffSignal
  | shuntOffRail
  | slantedWire
  | emptyWire
deriving DecidableEq, Repr

/-- How bad a finding is. -/
inductive Severity where
  | error
  | warning
deriving DecidableEq, Repr

namespace Severity

def name : Severity → String
  | .error => "ERROR"
  | .warning => "WARNING"

def ofName? (name : String) : Option Severity :=
  [error, warning].find? fun severity => severity.name == name

end Severity

namespace FindingKind

def all : List FindingKind :=
  [.memberOffLine, .memberGap, .leftBranchOffBus, .rightBranchOffBus, .portOffBus,
    .seriesOffSignal, .shuntOffRail, .slantedWire, .emptyWire]

def code : FindingKind → String
  | .memberOffLine => "SERIES_PORT_MISALIGNED"
  | .memberGap => "SERIES_NOT_ABUTTING"
  | .leftBranchOffBus => "PARALLEL_LEFT_OFF_BUS"
  | .rightBranchOffBus => "PARALLEL_RIGHT_OFF_BUS"
  | .portOffBus => "PARALLEL_TAP_OFF_BUS"
  | .seriesOffSignal => "TWOPORT_SERIES_OFF_SIGNAL"
  | .shuntOffRail => "TWOPORT_SHUNT_OFF_RAIL"
  | .slantedWire => "WIRE_NOT_AXIS_ALIGNED"
  | .emptyWire => "WIRE_ZERO_LENGTH"

def ofCode? (code : String) : Option FindingKind :=
  all.find? fun kind => kind.code == code

/-- A wire that connects nothing does no harm; everything else does. -/
def severity : FindingKind → Severity
  | .emptyWire => .warning
  | _ => .error

def template : FindingKind → Text.Template
  | .memberOffLine =>
      [.words "Right port of member ", .slot "left_index", .words " at ", .slot "left_port",
        .words " and left port of member ", .slot "right_index", .words " at ",
        .slot "right_port", .words " are not on the same signal line."]
  | .memberGap =>
      [.words "Member ", .slot "left_index", .words " ends at ", .slot "left_end",
        .words " but member ", .slot "right_index", .words " starts at ",
        .slot "right_start", .words "."]
  | .leftBranchOffBus =>
      [.words "Left port of branch ", .slot "index", .words " at ", .slot "port",
        .words " does not reach the left bus at ", .slot "bus", .words "."]
  | .rightBranchOffBus =>
      [.words "Right port of branch ", .slot "index", .words " at ", .slot "port",
        .words " does not reach the right bus at ", .slot "bus", .words "."]
  | .portOffBus =>
      [.words "Group ", .slot "side", .words " port at ", .slot "port",
        .words " does not lie on its bus at ", .slot "bus", .words "."]
  | .seriesOffSignal =>
      [.words "Series link ", .slot "index", .words " has its ports at y=", .slot "port_y",
        .words " instead of the signal line y=", .slot "signal_y", .words "."]
  | .shuntOffRail =>
      [.words "Shunt link ", .slot "index", .words " ends at ", .slot "port",
        .words " without a wire down to the rail at y=", .slot "rail_y", .words "."]
  | .slantedWire =>
      [.words "Wire from ", .slot "start", .words " to ", .slot "end",
        .words " is neither horizontal nor vertical."]
  | .emptyWire =>
      [.words "Wire at ", .slot "start",
        .words " has zero length and connects nothing."]

/-- What is told about a name that has no value. -/
def missingText (kind : FindingKind) (name : String) (arguments : Text.Arguments) : String :=
  "Error formatting message for " ++ kind.code ++ ": Missing key " ++ Text.quoted name ++
    ". Template: '" ++ kind.template.text ++ "' Args: " ++ arguments.text

/-- What is logged about a name that has no value. -/
def missingLog (kind : FindingKind) (name : String) (arguments : Text.Arguments) : String :=
  "Missing key " ++ Text.quoted name ++ " for formatting message template of " ++ kind.code ++
    " (code: " ++ kind.code ++ "): '" ++ kind.template.text ++ "'. Provided args: " ++
    arguments.text

/-- The message for a kind, and what is logged while it is made. -/
def message (kind : FindingKind) (arguments : Text.Arguments) : String × List String :=
  match kind.template.fill arguments with
  | .ok text => (text, [])
  | .error name => (kind.missingText name arguments, [kind.missingLog name arguments])

end FindingKind

/-- A place where a layout is not aligned. -/
inductive Finding (α : Type) where
  /-- The right port of the member at `index` and the left port of the next one
  are at different distances from the signal line. -/
  | memberOffLine (index : Nat) (leftPort rightPort : Point α)
  | memberGap (index : Nat) (leftEnd rightStart : α)
  | portOffBus (side : Side) (port : Point α) (bus : Option α)
  | branchOffBus (side : Side) (index : Nat) (port : Point α) (bus : Option α)
  | seriesOffSignal (index : Nat) (height signal : α)
  | shuntOffRail (index : Nat) (port : Point α) (rail : Option α)
  | slantedWire (wire : Wire α)
  | emptyWire (start : Point α)
deriving DecidableEq, Repr

namespace Finding

variable {α : Type}

def kind : Finding α → FindingKind
  | memberOffLine .. => .memberOffLine
  | memberGap .. => .memberGap
  | portOffBus .. => .portOffBus
  | branchOffBus .left .. => .leftBranchOffBus
  | branchOffBus .right .. => .rightBranchOffBus
  | seriesOffSignal .. => .seriesOffSignal
  | shuntOffRail .. => .shuntOffRail
  | slantedWire .. => .slantedWire
  | emptyWire .. => .emptyWire

/-- The parts of a circuit that a finding names, by their positions. -/
def indices : Finding α → List (String × Nat)
  | memberOffLine index .. => [("left_index", index), ("right_index", index + 1)]
  | memberGap index .. => [("left_index", index), ("right_index", index + 1)]
  | branchOffBus _ index .. => [("index", index)]
  | seriesOffSignal index .. => [("index", index)]
  | shuntOffRail index .. => [("index", index)]
  | portOffBus .. => []
  | slantedWire .. => []
  | emptyWire .. => []

/-- The positions that a finding names, as values. -/
def indexValues (finding : Finding α) : Text.Arguments :=
  finding.indices.map fun (name, index) => (name, .whole index)

variable [Text.Mentionable α]

def pointValue (point : Point α) : Text.Value :=
  .row [Text.Mentionable.mention point.x, Text.Mentionable.mention point.y]

/-- A coordinate in a message that may be missing. -/
def optionalValue (coordinate : Option α) : Text.Value :=
  (coordinate.map Text.Mentionable.mention).getD .nothing

def places : Finding α → Text.Arguments
  | memberOffLine _ leftPort rightPort =>
      [("left_port", pointValue leftPort), ("right_port", pointValue rightPort)]
  | memberGap _ leftEnd rightStart =>
      [("left_end", Text.Mentionable.mention leftEnd),
        ("right_start", Text.Mentionable.mention rightStart)]
  | portOffBus side port bus =>
      [("side", .text side.name), ("port", pointValue port), ("bus", optionalValue bus)]
  | branchOffBus _ _ port bus => [("port", pointValue port), ("bus", optionalValue bus)]
  | seriesOffSignal _ height signal =>
      [("port_y", Text.Mentionable.mention height),
        ("signal_y", Text.Mentionable.mention signal)]
  | shuntOffRail _ port rail => [("port", pointValue port), ("rail_y", optionalValue rail)]
  | slantedWire wire => [("start", pointValue wire.start), ("end", pointValue wire.finish)]
  | emptyWire start => [("start", pointValue start)]

def message (finding : Finding α) : String :=
  (finding.kind.message (finding.indexValues ++ finding.places)).1

end Finding

end Alignment

end Schematic
