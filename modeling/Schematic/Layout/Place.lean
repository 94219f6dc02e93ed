import Schematic.Layout.Basic
import Schematic.Layout.Measure

/-!
# Placing circuits

Once all extents are known, every circuit is placed from the root downwards.  A
placed circuit fixes the frames of its parts and the wires that it owns itself:
a series group owns none, a parallel group owns the stubs of its narrow
branches and its two buses, and a twoport owns its rail, the leads of its
shunts and what is missing of its signal line.
-/

namespace Schematic

variable {α : Type} [Scalar α]

/-! ## Series groups -/

/-- The frames of members that follow one another from `x` on, with their left
ports on the line at the height `line`. -/
def seriesFrames (frame : Frame α) (line : α) : α → List (Extent α) → List (Frame α)
  | _, [] => []
  | x, member :: rest =>
      ⟨frame.point ⟨x, line - member.leftPort.y⟩, frame.rotated⟩ ::
        seriesFrames frame line (x + member.width) rest

/-! ## Parallel groups -/

/-- A branch of a parallel group with its top-left corner in the frame of the
group. -/
structure BranchSlot (α : Type) where
  branch : Extent α
  corner : Point α

namespace BranchSlot

def leftPort (slot : BranchSlot α) : Point α :=
  ⟨slot.corner.x, slot.corner.y + slot.branch.leftPort.y⟩

def rightPort (slot : BranchSlot α) : Point α :=
  ⟨slot.corner.x + slot.branch.width, slot.corner.y + slot.branch.rightPort.y⟩

/-- The stubs from the buses of a group of the given width to the ports of a
branch, where the branch does not reach the buses itself. -/
def stubs (frame : Frame α) (width : α) (slot : BranchSlot α) : List (Wire α) :=
  frame.connect ⟨Scalar.zero, slot.leftPort.y⟩ slot.leftPort ++
    frame.connect slot.rightPort ⟨width, slot.rightPort.y⟩

end BranchSlot

/-- The distance of a branch from the left bus. -/
def branchIndent (alignment : BranchAlignment) (width : α) (branch : Extent α) : α :=
  match alignment with
  | .center => Scalar.half (width - branch.width)
  | _ => Scalar.zero

/-- The slots of branches that are stacked from the height `y` downwards. -/
def branchSlots (settings : LayoutSettings α) (width : α) :
    α → List (Extent α) → List (BranchSlot α)
  | _, [] => []
  | y, branch :: rest =>
      ⟨branch, ⟨branchIndent settings.branchAlignment width branch, y⟩⟩ ::
        branchSlots settings width (y + (branch.height + settings.parallelSpacing)) rest

/-- Puts a height into an ordered list that holds each height once. -/
def insertTap (tap : α) : List α → List α
  | [] => [tap]
  | first :: rest =>
      if tap == first then first :: rest
      else if tap < first then tap :: first :: rest
      else first :: insertTap tap rest

/-- The heights at which something meets a bus, in order: the port of the group
and the ports of its branches on that side. -/
def busTaps (port : α) (branchPorts : List α) : List α :=
  branchPorts.foldl (fun taps tap => insertTap tap taps) [port]

/-- The pieces of a bus between the taps that follow one another. -/
def busWires (frame : Frame α) (x : α) : List α → List (Wire α)
  | top :: bottom :: rest =>
      frame.connect ⟨x, top⟩ ⟨x, bottom⟩ ++ busWires frame x (bottom :: rest)
  | _ => []

/-- The wires of a parallel group: the stubs of every branch, then the left and
the right bus. -/
def parallelWires (frame : Frame α) (extent : Extent α) (slots : List (BranchSlot α)) :
    List (Wire α) :=
  let port := extent.leftPort.y
  slots.flatMap (BranchSlot.stubs frame extent.width) ++
    busWires frame Scalar.zero (busTaps port (slots.map fun slot => slot.leftPort.y)) ++
    busWires frame extent.width (busTaps port (slots.map fun slot => slot.rightPort.y))

/-! ## Twoports -/

/-- The slot of a link of a twoport. -/
structure LinkSlot (α : Type) where
  kind : LinkKind
  target : Extent α
  start : α
  width : α

namespace LinkSlot

def finish (slot : LinkSlot α) : α :=
  slot.start + slot.width

def middle (slot : LinkSlot α) : α :=
  slot.start + Scalar.half slot.width

/-- The frame of the target.  A series target has its ports on the signal line;
a shunt target is turned, so that it hangs in the middle of its slot. -/
def targetFrame (frame : Frame α) (lines : TwoportLines α) (slot : LinkSlot α) : Frame α :=
  match slot.kind with
  | .series =>
      ⟨frame.point ⟨slot.start, lines.signal - slot.target.leftPort.y⟩, frame.rotated⟩
  | .shunt =>
      ⟨frame.point ⟨slot.middle - slot.target.leftPort.y, lines.shuntTop⟩, !frame.rotated⟩

/-- Signal and rail between two places of a slot. -/
def pair (frame : Frame α) (lines : TwoportLines α) (start finish : α) : List (Wire α) :=
  frame.connect ⟨start, lines.signal⟩ ⟨finish, lines.signal⟩ ++
    frame.connect ⟨start, lines.rail⟩ ⟨finish, lines.rail⟩

/-- The wires of a slot.  Below a series target runs the rail.  A shunt has a
lead at both ports, and wires only towards the links that are beside it. -/
def wires (frame : Frame α) (lines : TwoportLines α) (isFirst isLast : Bool)
    (slot : LinkSlot α) : List (Wire α) :=
  match slot.kind with
  | .series => frame.connect ⟨slot.start, lines.rail⟩ ⟨slot.finish, lines.rail⟩
  | .shunt =>
      let bottom := lines.shuntTop + slot.target.width
      frame.connect ⟨slot.middle, lines.signal⟩ ⟨slot.middle, lines.shuntTop⟩ ++
        frame.connect ⟨slot.middle, bottom⟩ ⟨slot.middle, lines.rail⟩ ++
        (if isFirst then [] else pair frame lines slot.start slot.middle) ++
        (if isLast then [] else pair frame lines slot.middle slot.finish)

end LinkSlot

/-- The slots of links that follow one another from `x` on. -/
def linkSlots (settings : LayoutSettings α) :
    α → List (LinkKind × Extent α) → List (LinkSlot α)
  | _, [] => []
  | x, link :: rest =>
      let width := slotWidth settings link
      ⟨link.1, link.2, x, width⟩ :: linkSlots settings (x + width) rest

/-- The wires of slots; `isFirst` says whether the first of them begins the
twoport. -/
def slotWires (frame : Frame α) (lines : TwoportLines α) :
    (isFirst : Bool) → List (LinkSlot α) → List (Wire α)
  | _, [] => []
  | isFirst, slot :: rest =>
      slot.wires frame lines isFirst rest.isEmpty ++ slotWires frame lines false rest

/-! ## All circuits -/

/-- The frames of the parts of a circuit that is placed in `frame`. -/
def partFrames (settings : LayoutSettings α) (extent : Extent α) (parts : List (Extent α))
    (frame : Frame α) : List (Frame α) :=
  match extent.circuit with
  | .series _ => seriesFrames frame extent.leftPort.y Scalar.zero parts
  | .parallel _ =>
      (branchSlots settings extent.width Scalar.zero parts).map fun slot =>
        ⟨frame.point slot.corner, frame.rotated⟩
  | .twoport _ =>
      let links := extent.circuit.linkExtents parts
      let lines := twoportLines settings links
      (linkSlots settings Scalar.zero links).map (LinkSlot.targetFrame frame lines)
  | _ => []

/-- A placed circuit without wires, buses and rail. -/
def barePlacement (extent : Extent α) (frame : Frame α) : Placement α :=
  let size := frame.offset ⟨extent.width, extent.height⟩
  { circuit := extent.circuit
    origin := frame.origin
    width := size.x
    height := size.y
    leftPort := frame.offset extent.leftPort
    rightPort := frame.offset extent.rightPort
    rotated := frame.rotated }

/-- The coordinate of a local point along the signal, in the drawing. -/
def alongSignal (frame : Frame α) (local_ : Point α) : α :=
  let point := frame.point local_
  if frame.rotated then point.y else point.x

/-- A circuit with the given parts, placed in `frame`. -/
def placement (settings : LayoutSettings α) (extent : Extent α) (parts : List (Extent α))
    (frame : Frame α) : Placement α :=
  let bare := barePlacement extent frame
  match extent.circuit with
  | .parallel _ =>
      let port := extent.leftPort.y
      { bare with
        wires := parallelWires frame extent
          (branchSlots settings extent.width Scalar.zero parts)
        leftBus := some (alongSignal frame ⟨Scalar.zero, port⟩)
        rightBus := some (alongSignal frame ⟨extent.width, port⟩) }
  | .twoport _ =>
      let links := extent.circuit.linkExtents parts
      let lines := twoportLines settings links
      { bare with
        wires := slotWires frame lines true (linkSlots settings Scalar.zero links)
        rail := some (frame.point ⟨Scalar.zero, lines.rail⟩).y }
  | _ => bare

mutual

/-- Places a measured circuit and all its parts. -/
def Measure.place (settings : LayoutSettings α) : Measure α → Frame α → Layout α
  | .node extent parts, frame =>
      let extents := parts.map Measure.extent
      .node (placement settings extent extents frame)
        (placeAll settings parts (partFrames settings extent extents frame))

def placeAll (settings : LayoutSettings α) :
    List (Measure α) → List (Frame α) → List (Layout α)
  | part :: parts, frame :: frames =>
      part.place settings frame :: placeAll settings parts frames
  | _, _ => []

end

/-- Lays out a circuit with its top-left corner at the origin of the
settings. -/
def Circuit.layout (symbols : SymbolLibrary α) (settings : LayoutSettings α)
    (circuit : Circuit) : Except LayoutFault (Layout α) := do
  let measure ← circuit.measure symbols settings
  return measure.place settings ⟨settings.origin, false⟩

end Schematic
