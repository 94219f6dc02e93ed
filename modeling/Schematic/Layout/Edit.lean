import Schematic.Layout.Basic

/-!
# Edits of layouts

An edit gives new values to some fields of one node of a layout and leaves the
others as they are.  The node is named by the positions of the children on the
way to it, and its parts do not move with it, so an edited layout need not be
aligned any more.
-/

namespace Schematic

/-- A change of the wires of a node. -/
inductive WireEdit (α : Type) where
  | replace (wires : List (Wire α))
  /-- The wires at some positions are taken away. -/
  | drop (positions : List Int)
  | append (wires : List (Wire α))

namespace WireEdit

variable {α : Type}

/-- The wires of a node after a change. -/
def apply (edit : WireEdit α) (present : List (Wire α)) : List (Wire α) :=
  match edit with
  | replace wires => wires
  | drop positions =>
      let kept := present.zipIdx.filter fun (_, position) =>
        !positions.contains (position : Int)
      kept.map Prod.fst
  | append wires => present ++ wires

end WireEdit

/-- New values for some fields of a node. -/
structure LayoutEdit (α : Type) where
  circuit : Option Circuit := none
  origin : Option (Point α) := none
  width : Option α := none
  height : Option α := none
  leftPort : Option (Point α) := none
  rightPort : Option (Point α) := none
  rotated : Option Bool := none
  /-- The place of the left bus, which can also be taken away. -/
  leftBus : Option (Option α) := none
  /-- The place of the right bus, which can also be taken away. -/
  rightBus : Option (Option α) := none
  /-- The height of the rail, which can also be taken away. -/
  rail : Option (Option α) := none
  wires : Option (WireEdit α) := none
  /-- The positions of the children that stay, in their new order. -/
  children : Option (List Int) := none

namespace LayoutEdit

variable {α : Type}

def placementOf (edit : LayoutEdit α) (placement : Placement α) : Placement α where
  circuit := edit.circuit.getD placement.circuit
  origin := edit.origin.getD placement.origin
  width := edit.width.getD placement.width
  height := edit.height.getD placement.height
  leftPort := edit.leftPort.getD placement.leftPort
  rightPort := edit.rightPort.getD placement.rightPort
  rotated := edit.rotated.getD placement.rotated
  wires := (edit.wires.map fun wires => wires.apply placement.wires).getD placement.wires
  leftBus := edit.leftBus.getD placement.leftBus
  rightBus := edit.rightBus.getD placement.rightBus
  rail := edit.rail.getD placement.rail

end LayoutEdit

namespace Layout

variable {α : Type}

/-- The offset of a position in a list of the given length.  Negative positions
count from the end; others outside of the list have no offset. -/
def offset? (count : Nat) (position : Int) : Option Nat :=
  let forward := if position < 0 then position + count else position
  if 0 ≤ forward ∧ forward < count then some forward.toNat else none

def childAt? (children : List (Layout α)) (position : Int) : Option (Layout α) := do
  let offset ← offset? children.length position
  children[offset]?

/-- Edits the root; nothing comes of it if a child that should stay is not
there. -/
def editRoot? (edit : LayoutEdit α) : Layout α → Option (Layout α)
  | node placement children => do
      let kept ← match edit.children with
        | none => some children
        | some positions => positions.mapM (childAt? children)
      return node (edit.placementOf placement) kept

/-- Edits the node at a path; nothing comes of it if no node is there. -/
def edit? (edit : LayoutEdit α) : (path : List Int) → Layout α → Option (Layout α)
  | [], layout => layout.editRoot? edit
  | position :: path, node placement children => do
      let offset ← offset? children.length position
      let child ← children[offset]?
      let changed ← edit? edit path child
      return node placement (children.set offset changed)

end Layout

end Schematic
