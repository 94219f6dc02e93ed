import Schematic.Proofs.Layout.Frames

/-!
# Axes

What holds of a drawing along one of its axes mostly holds along the other one
as well.  A turned frame exchanges the two.
-/

namespace Schematic

/-- The two ends of a wire. -/
def Wire.ends (wire : Wire Rat) : List (Point Rat) :=
  [wire.start, wire.finish]

/-- The two axes of a drawing. -/
inductive Axis where
  | horizontal
  | vertical

namespace Axis

/-- The coordinate of a point along an axis. -/
def of (axis : Axis) (point : Point Rat) : Rat :=
  match axis with
  | .horizontal => point.x
  | .vertical => point.y

/-- The other axis. -/
def turned : Axis → Axis
  | .horizontal => .vertical
  | .vertical => .horizontal

theorem of_add (axis : Axis) (first second : Point Rat) :
    axis.of (first + second) = axis.of first + axis.of second := by
  cases axis <;> rfl

theorem turned_of_transposed (axis : Axis) (point : Point Rat) :
    axis.turned.of point.transposed = axis.of point := by
  cases axis <;> rfl

end Axis

namespace Frame

/-- The axis of a frame that runs along an axis of the drawing. -/
def axis (frame : Frame Rat) (axis : Axis) : Axis :=
  if frame.rotated then axis.turned else axis

theorem of_point (frame : Frame Rat) (axis : Axis) (point : Point Rat) :
    axis.of (frame.point point) = axis.of frame.origin + (frame.axis axis).of point := by
  rw [Frame.point, Axis.of_add]
  cases rotated : frame.rotated <;> cases axis <;> simp [offset, Frame.axis, rotated] <;> rfl

end Frame

end Schematic
