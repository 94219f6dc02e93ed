import Schematic.Scalar

/-!
# Points, wires and frames

This file holds the geometry shared by layouts, checks and drawings.  The
first coordinate runs to the right and the second one downwards, from the
top-left corner of the drawing.
-/

namespace Schematic

/-- A point of the plane, or the offset between two points. -/
structure Point (α : Type) where
  /-- The horizontal coordinate, growing to the right. -/
  x : α
  /-- The vertical coordinate, growing downwards. -/
  y : α
deriving DecidableEq, Repr

namespace Point

variable {α : Type} [Scalar α]

/-- Two points are the same when both their coordinates are equal. -/
def same (first second : Point α) : Bool :=
  first.x == second.x && first.y == second.y

instance : Add (Point α) := ⟨fun first second => ⟨first.x + second.x, first.y + second.y⟩⟩

instance : Sub (Point α) := ⟨fun first second => ⟨first.x - second.x, first.y - second.y⟩⟩

omit [Scalar α] in
def transposed (point : Point α) : Point α :=
  ⟨point.y, point.x⟩

/-- Rounds both coordinates to the given number of places. -/
def rounded (places : Nat) (point : Point α) : Point α :=
  ⟨Scalar.roundTo places point.x, Scalar.roundTo places point.y⟩

/-- Points are ordered from left to right, and from top to bottom at the same
place. -/
def before (first second : Point α) : Bool :=
  first.x < second.x || (first.x == second.x && first.y < second.y)

/-- Puts a point into an ordered list of points that holds each of them once. -/
def insertOrdered (point : Point α) : List (Point α) → List (Point α)
  | [] => [point]
  | first :: rest =>
      if point.same first then first :: rest
      else if point.before first then point :: first :: rest
      else first :: insertOrdered point rest

/-- The points of a list in order, each of them once. -/
def ordered (points : List (Point α)) : List (Point α) :=
  points.foldl (fun sorted point => insertOrdered point sorted) []

end Point

/-- A straight connection between two points. -/
structure Wire (α : Type) where
  start : Point α
  finish : Point α
deriving DecidableEq, Repr

namespace Wire

variable {α : Type} [Scalar α]

/-- Whether both ends are at the same height. -/
def isHorizontal (wire : Wire α) : Bool :=
  wire.start.y == wire.finish.y

/-- Whether one end is straight above the other. -/
def isVertical (wire : Wire α) : Bool :=
  wire.start.x == wire.finish.x

/-- The length of a wire along the two axes. -/
def length (wire : Wire α) : α :=
  Scalar.abs (wire.finish.x - wire.start.x) + Scalar.abs (wire.finish.y - wire.start.y)

end Wire

/-- A local frame of coordinates.  In a rotated frame the two axes are
exchanged, so that what runs to the right hangs down instead. -/
structure Frame (α : Type) where
  /-- Where the frame begins in the drawing. -/
  origin : Point α
  /-- Whether the axes are exchanged. -/
  rotated : Bool := false
deriving DecidableEq, Repr

namespace Frame

variable {α : Type} [Scalar α]

omit [Scalar α] in
/-- A local offset as an offset in the drawing. -/
def offset (frame : Frame α) (local_ : Point α) : Point α :=
  if frame.rotated then local_.transposed else local_

/-- A local point as a point of the drawing. -/
def point (frame : Frame α) (local_ : Point α) : Point α :=
  frame.origin + frame.offset local_

def wire (frame : Frame α) (start finish : Point α) : Wire α :=
  ⟨frame.point start, frame.point finish⟩

/-- The wire between two local points, unless they are the same one. -/
def connect (frame : Frame α) (start finish : Point α) : List (Wire α) :=
  if start.same finish then [] else [frame.wire start finish]

end Frame

end Schematic
