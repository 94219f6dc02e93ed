import Schematic.Settings.Basic
import Schematic.Symbol

/-!
# Sizes of circuits

Before anything is placed, every circuit gets a box and the offsets of its two
ports, from its parts upwards and as if nothing were rotated.  The members of a
series group follow one another on one line; the branches of a parallel group
are stacked; the links of a twoport form a row above a return rail, in which a
shunt takes a slot for its target turned downwards.
-/

namespace Schematic

/-- The box and the ports of a circuit in its own, unrotated frame. -/
structure Extent (α : Type) where
  circuit : Circuit
  width : α
  height : α
  /-- The left port, measured from the top-left corner. -/
  leftPort : Point α
  /-- The right port, measured from the top-left corner. -/
  rightPort : Point α

namespace Extent

variable {α : Type} [Scalar α]

omit [Scalar α] in
/-- How far a box reaches above the line through its left port. -/
def ascent (extent : Extent α) : α :=
  extent.leftPort.y

/-- How far a box reaches below the line through its left port. -/
def descent (extent : Extent α) : α :=
  extent.height - extent.leftPort.y

end Extent

/-- A circuit with its extent and the measures of its parts. -/
inductive Measure (α : Type) where
  /-- An extent and the measures of the members, branches or targets. -/
  | node (extent : Extent α) (parts : List (Measure α))

namespace Measure

variable {α : Type}

def extent : Measure α → Extent α
  | node extent _ => extent

/-- The measures of the parts of the root. -/
def parts : Measure α → List (Measure α)
  | node _ parts => parts

end Measure

/-- Why a circuit cannot be laid out. -/
inductive LayoutFault where
  | unknownSymbol (kind : ElementKind)
  | emptyGroup
  /-- Something that is no circuit stands in the place of one. -/
  | notPlaceable (form : String)
deriving DecidableEq, Repr

namespace LayoutFault

def message : LayoutFault → String
  | .unknownSymbol kind => "No symbol for " ++ kind.name
  | .emptyGroup => "A group without parts has no size"
  | .notPlaceable form => "Cannot lay out object of type " ++ form

end LayoutFault

variable {α : Type} [Scalar α]

/-- The extent of an element with the given symbol. -/
def Symbol.extent (symbol : Symbol α) (element : Element) : Extent α where
  circuit := .element element
  width := symbol.width
  height := symbol.height
  leftPort := symbol.ports.1
  rightPort := symbol.ports.2

/-- The extent of a series group of members on a shared line. -/
def seriesExtent (circuit : Circuit) :
    List (Extent α) → Except LayoutFault (Extent α)
  | [] => .error .emptyGroup
  | first :: rest =>
      let members := first :: rest
      let ascent := Scalar.largest first.ascent (rest.map Extent.ascent)
      let descent := Scalar.largest first.descent (rest.map Extent.descent)
      let width := Scalar.sum (members.map Extent.width)
      .ok {
        circuit
        width
        height := ascent + descent
        leftPort := ⟨Scalar.zero, ascent⟩
        rightPort := ⟨width, ascent⟩ }

/-- The extent of a parallel group of stacked branches. -/
def parallelExtent (settings : LayoutSettings α) (circuit : Circuit) :
    List (Extent α) → Except LayoutFault (Extent α)
  | [] => .error .emptyGroup
  | first :: rest =>
      let branches := first :: rest
      let width := Scalar.largest first.width (rest.map Extent.width)
      let height :=
        Scalar.sum (branches.map Extent.height) +
          settings.parallelSpacing * Scalar.ofNat rest.length
      .ok {
        circuit
        width
        height
        leftPort := ⟨Scalar.zero, Scalar.half height⟩
        rightPort := ⟨width, Scalar.half height⟩ }

/-- The heights that the parts of a twoport share. -/
structure TwoportLines (α : Type) where
  signal : α
  /-- The height of the upper ports of the shunts. -/
  shuntTop : α
  rail : α

def targetsOf (kind : LinkKind) (links : List (LinkKind × Extent α)) : List (Extent α) :=
  (links.filter fun link => link.1 == kind).map Prod.snd

/-- The lines of a twoport with the given links.  The rail runs below the
lowest series part and the longest shunt. -/
def twoportLines (settings : LayoutSettings α) (links : List (LinkKind × Extent α)) :
    TwoportLines α :=
  let series := targetsOf .series links
  let shunts := targetsOf .shunt links
  let signal := Scalar.largestOr Scalar.zero (series.map Extent.ascent)
  let lowest := signal + Scalar.largestOr Scalar.zero (series.map Extent.descent)
  let shuntTop := signal + settings.shuntLead
  let lowest :=
    match shunts with
    | [] => lowest
    | first :: rest =>
        Scalar.larger lowest <|
          shuntTop + Scalar.largest first.width (rest.map Extent.width)
  { signal, shuntTop, rail := lowest + settings.railClearance }

/-- The width of the slot of a link.  A shunt hangs down, so its height counts,
but its slot is never narrower than the settings say. -/
def slotWidth (settings : LayoutSettings α) (link : LinkKind × Extent α) : α :=
  match link.1 with
  | .series => link.2.width
  | .shunt => Scalar.larger settings.shuntStub link.2.height

/-- The extent of a twoport with the given links. -/
def twoportExtent (settings : LayoutSettings α) (circuit : Circuit)
    (links : List (LinkKind × Extent α)) : Extent α :=
  let lines := twoportLines settings links
  let width := Scalar.sum (links.map (slotWidth settings))
  { circuit
    width
    height := lines.rail
    leftPort := ⟨Scalar.zero, lines.signal⟩
    rightPort := ⟨width, lines.signal⟩ }

/-- The kinds of the links of a circuit, if it is a twoport. -/
def Circuit.linkKinds : Circuit → List LinkKind
  | .twoport links => links.map Link.kind
  | _ => []

/-- The links of a circuit with the extents of their targets. -/
def Circuit.linkExtents (circuit : Circuit) (targets : List (Extent α)) :
    List (LinkKind × Extent α) :=
  circuit.linkKinds.zip targets

mutual

def Circuit.measure (symbols : SymbolLibrary α) (settings : LayoutSettings α) :
    Circuit → Except LayoutFault (Measure α)
  | .element element =>
      match symbols element.kind with
      | none => .error (.unknownSymbol element.kind)
      | some symbol => .ok (.node (symbol.extent element) [])
  | .series members => do
      let parts ← measureAll symbols settings members
      let extent ← seriesExtent (.series members) (parts.map Measure.extent)
      return .node extent parts
  | .parallel branches => do
      let parts ← measureAll symbols settings branches
      let extent ← parallelExtent settings (.parallel branches) (parts.map Measure.extent)
      return .node extent parts
  | .twoport links => do
      let parts ← measureTargets symbols settings links
      let extents := (links.map Link.kind).zip (parts.map Measure.extent)
      return .node (twoportExtent settings (.twoport links) extents) parts
  | .link _ => .error (.notPlaceable "TwoportLink")

def measureAll (symbols : SymbolLibrary α) (settings : LayoutSettings α) :
    List Circuit → Except LayoutFault (List (Measure α))
  | [] => .ok []
  | circuit :: rest => do
      let first ← circuit.measure symbols settings
      let others ← measureAll symbols settings rest
      return first :: others

def measureTargets (symbols : SymbolLibrary α) (settings : LayoutSettings α) :
    List (Link Circuit) → Except LayoutFault (List (Measure α))
  | [] => .ok []
  | ⟨_, target⟩ :: rest => do
      let first ← target.measure symbols settings
      let others ← measureTargets symbols settings rest
      return first :: others

end

end Schematic
