import Schematic.Circuit
import Schematic.Geometry

/-!
# Layouts

A layout is a tree of placed circuits: every node has its place in the drawing,
the wires that it owns, and the placed parts of its circuit as children.  This
file holds these trees and the walk through their nodes.
-/

namespace Schematic

/-- A circuit with its place in the drawing.  Sizes and port offsets are those
in the drawing, so a rotated circuit has its left port on the top edge and its
right port on the bottom edge. -/
structure Placement (α : Type) where
  circuit : Circuit
  /-- The top-left corner of its box. -/
  origin : Point α
  width : α
  height : α
  /-- The left port, measured from the origin. -/
  leftPort : Point α
  /-- The right port, measured from the origin. -/
  rightPort : Point α
  /-- Whether the circuit hangs down instead of running to the right. -/
  rotated : Bool := false
  /-- The wires that the circuit owns, in the drawing. -/
  wires : List (Wire α) := []
  /-- The place of the left bus of a parallel group along its signal. -/
  leftBus : Option α := none
  /-- The place of the right bus of a parallel group along its signal. -/
  rightBus : Option α := none
  rail : Option α := none

namespace Placement

variable {α : Type} [Scalar α]

def leftEnd (placement : Placement α) : Point α :=
  placement.origin + placement.leftPort

def rightEnd (placement : Placement α) : Point α :=
  placement.origin + placement.rightPort

def bottomRight (placement : Placement α) : Point α :=
  ⟨placement.origin.x + placement.width, placement.origin.y + placement.height⟩

omit [Scalar α] in
/-- The coordinate of a point along the signal of a placed circuit. -/
def along (placement : Placement α) (point : Point α) : α :=
  if placement.rotated then point.y else point.x

omit [Scalar α] in
/-- The coordinate of a point across the signal of a placed circuit. -/
def across (placement : Placement α) (point : Point α) : α :=
  if placement.rotated then point.x else point.y

omit [Scalar α] in
/-- The element that is placed, if the circuit is one. -/
def element? (placement : Placement α) : Option Element :=
  match placement.circuit with
  | .element element => some element
  | _ => none

end Placement

/-- A placed circuit with its placed parts. -/
inductive Layout (α : Type) where
  /-- A placement and its parts: the members of a series group, the branches of
  a parallel group, or the targets of the links of a twoport. -/
  | node (placement : Placement α) (children : List (Layout α))

namespace Layout

variable {α : Type}

def placement : Layout α → Placement α
  | node placement _ => placement

def children : Layout α → List (Layout α)
  | node _ children => children

mutual

def size : Layout α → Nat
  | node _ children => sizes children + 1

def sizes : List (Layout α) → Nat
  | [] => 0
  | layout :: rest => layout.size + sizes rest

end

theorem sizes_append (first second : List (Layout α)) :
    sizes (first ++ second) = sizes first + sizes second := by
  induction first with
  | nil => simp [sizes]
  | cons layout rest ih => simp [sizes, ih]; omega

/-- Visits the nodes on a stack, the top one first.  The children of a visited
node take its place on the stack, so parents come before their parts. -/
def visit : List (Layout α) → List (Layout α)
  | [] => []
  | node placement children :: stack =>
      node placement children :: visit (children ++ stack)
termination_by stack => sizes stack
decreasing_by
  simp only [sizes_append, sizes, size]
  omega

def walk (layout : Layout α) : List (Layout α) :=
  visit [layout]

/-- All wires, in the order of the nodes that own them. -/
def allWires (layout : Layout α) : List (Wire α) :=
  layout.walk.flatMap fun node => node.placement.wires

end Layout

end Schematic
