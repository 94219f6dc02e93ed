import Mathlib.Algebra.Order.Group.MinMax
import Schematic.Drawing.Figure
import Schematic.Proofs.Layout.Axes

/-!
# Boxes

A box has two sides along each axis.  Whether boxes are inside of each other or
beside each other is decided by their sides, and it is the same in a frame and
in the drawing.
-/

namespace Schematic

namespace Scalar

theorem smallest_eq_neg_largest (first : Rat) (rest : List Rat) :
    smallest first rest = -largest (-first) (rest.map (-·)) := by
  induction rest generalizing first with
  | nil => simp [smallest, largest]
  | cons second rest ih =>
      have unfolded : smallest first (second :: rest) = smallest (min first second) rest := by
        rw [smallest, List.foldl_cons, smaller_eq, smallest]
      rw [unfolded, ih, List.map_cons, largest, largest, List.foldl_cons, larger_eq, max_neg_neg]

theorem smallest_spec (first : Rat) (rest : List Rat) :
    smallest first rest ∈ first :: rest ∧ ∀ value ∈ first :: rest, smallest first rest ≤ value := by
  obtain ⟨member, bound⟩ := largest_spec (-first) (rest.map (-·))
  rw [← List.map_cons (f := (-·))] at member bound
  rw [smallest_eq_neg_largest]
  constructor
  · obtain ⟨value, isValue, same⟩ := List.mem_map.mp member
    rwa [← same, neg_neg]
  · exact fun value isValue => neg_le.mp (bound (-value) (List.mem_map_of_mem isValue))

end Scalar

namespace Box

/-- The side of a box where its coordinates along an axis are smallest; `high` is
where they are largest. -/
def low (box : Box Rat) : Axis → Rat
  | .horizontal => box.left
  | .vertical => box.top

def high (box : Box Rat) : Axis → Rat
  | .horizontal => box.right
  | .vertical => box.bottom

theorem eq_of_sides {first second : Box Rat} (sameLow : ∀ axis, first.low axis = second.low axis)
    (sameHigh : ∀ axis, first.high axis = second.high axis) : first = second := by
  obtain ⟨left, top, right, bottom⟩ := first
  obtain ⟨otherLeft, otherTop, otherRight, otherBottom⟩ := second
  rw [mk.injEq]
  exact ⟨sameLow .horizontal, sameLow .vertical, sameHigh .horizontal, sameHigh .vertical⟩

/-- A point of a box or on its edges. -/
def Contains (box : Box Rat) (point : Point Rat) : Prop :=
  ∀ axis : Axis, box.low axis ≤ axis.of point ∧ axis.of point ≤ box.high axis

/-- A point of the open interior of a box. -/
def Surrounds (box : Box Rat) (point : Point Rat) : Prop :=
  ∀ axis : Axis, box.low axis < axis.of point ∧ axis.of point < box.high axis

/-- No side of the inner box is outside of the outer one. -/
def Within (inner outer : Box Rat) : Prop :=
  ∀ axis : Axis, outer.low axis ≤ inner.low axis ∧ inner.high axis ≤ outer.high axis

/-- Boxes of which one ends along an axis before the other one starts. -/
def Beside (first second : Box Rat) : Prop :=
  ∃ axis : Axis, first.high axis ≤ second.low axis ∨ second.high axis ≤ first.low axis

variable {box inner outer first second third : Box Rat} {boxes : List (Box Rat)}
  {point : Point Rat}

theorem Surrounds.contains (surrounds : box.Surrounds point) : box.Contains point :=
  fun axis => ⟨(surrounds axis).1.le, (surrounds axis).2.le⟩

theorem Within.refl (box : Box Rat) : box.Within box :=
  fun _ => ⟨le_rfl, le_rfl⟩

theorem contains_iff : box.Contains point ↔
    (box.left ≤ point.x ∧ point.x ≤ box.right) ∧ box.top ≤ point.y ∧ point.y ≤ box.bottom := by
  constructor
  · exact fun contains => ⟨contains .horizontal, contains .vertical⟩
  · rintro ⟨horizontal, vertical⟩ (_ | _)
    · exact horizontal
    · exact vertical

theorem within_iff : inner.Within outer ↔
    (outer.left ≤ inner.left ∧ inner.right ≤ outer.right) ∧
      outer.top ≤ inner.top ∧ inner.bottom ≤ outer.bottom := by
  constructor
  · exact fun within => ⟨within .horizontal, within .vertical⟩
  · rintro ⟨horizontal, vertical⟩ (_ | _)
    · exact horizontal
    · exact vertical

theorem Within.trans (within : first.Within second) (next : second.Within third) :
    first.Within third :=
  fun axis => ⟨(next axis).1.trans (within axis).1, (within axis).2.trans (next axis).2⟩

theorem Contains.mono (contains : inner.Contains point) (within : inner.Within outer) :
    outer.Contains point :=
  fun axis => ⟨(within axis).1.trans (contains axis).1, (contains axis).2.trans (within axis).2⟩

theorem Beside.symm (beside : first.Beside second) : second.Beside first := by
  obtain ⟨axis, apart⟩ := beside
  exact ⟨axis, apart.symm⟩

theorem Beside.mono {one other : Box Rat} (beside : first.Beside second)
    (isOne : one.Within first) (isOther : other.Within second) : one.Beside other := by
  obtain ⟨axis, before | after⟩ := beside
  · exact ⟨axis, .inl (((isOne axis).2.trans before).trans (isOther axis).1)⟩
  · exact ⟨axis, .inr (((isOther axis).2.trans after).trans (isOne axis).1)⟩

theorem Beside.not_surrounds (beside : first.Beside second) (contains : first.Contains point) :
    ¬second.Surrounds point := by
  intro surrounds
  obtain ⟨axis, before | after⟩ := beside
  · linarith [(contains axis).2, (surrounds axis).1]
  · linarith [(contains axis).1, (surrounds axis).2]

/-! ## Hulls -/

/-- The smallest box that contains others. -/
def IsHull (box : Box Rat) (boxes : List (Box Rat)) : Prop :=
  (∀ inner ∈ boxes, inner.Within box) ∧
    ∀ outer : Box Rat, (∀ inner ∈ boxes, inner.Within outer) → box.Within outer

/-- Each side of a box is a side of one of the others. -/
def Touched (box : Box Rat) (boxes : List (Box Rat)) : Prop :=
  ∀ axis : Axis, (∃ inner ∈ boxes, inner.low axis = box.low axis) ∧
    ∃ inner ∈ boxes, inner.high axis = box.high axis

theorem Touched.isHull (touched : box.Touched boxes) (nested : ∀ inner ∈ boxes, inner.Within box) :
    box.IsHull boxes := by
  refine ⟨nested, fun outer outside axis => ?_⟩
  obtain ⟨⟨lowest, isLowest, sameLow⟩, highest, isHighest, sameHigh⟩ := touched axis
  exact ⟨sameLow ▸ (outside lowest isLowest axis).1, sameHigh ▸ (outside highest isHighest axis).2⟩

/-- The box around points has its sides where the points end. -/
theorem around_eq {start : Point Rat} {rest : List (Point Rat)}
    (contains : ∀ point ∈ start :: rest, box.Contains point)
    (topLeft : ⟨box.left, box.top⟩ ∈ start :: rest)
    (bottomRight : ⟨box.right, box.bottom⟩ ∈ start :: rest) : around start rest = box := by
  have smallest : ∀ (coordinate : Point Rat → Rat) (low : Rat),
      (∀ point ∈ start :: rest, low ≤ coordinate point) →
      (∃ point ∈ start :: rest, coordinate point = low) →
        Scalar.smallest (coordinate start) (rest.map coordinate) = low := by
    rintro coordinate low bound ⟨point, isPoint, rfl⟩
    obtain ⟨member, least⟩ := Scalar.smallest_spec (coordinate start) (rest.map coordinate)
    rw [← List.map_cons] at member least
    obtain ⟨other, isOther, same⟩ := List.mem_map.mp member
    exact le_antisymm (least _ (List.mem_map_of_mem isPoint)) (same ▸ bound other isOther)
  have largest : ∀ (coordinate : Point Rat → Rat) (high : Rat),
      (∀ point ∈ start :: rest, coordinate point ≤ high) →
      (∃ point ∈ start :: rest, coordinate point = high) →
        Scalar.largest (coordinate start) (rest.map coordinate) = high := by
    rintro coordinate high bound ⟨point, isPoint, rfl⟩
    obtain ⟨member, greatest⟩ := Scalar.largest_spec (coordinate start) (rest.map coordinate)
    rw [← List.map_cons] at member greatest
    obtain ⟨other, isOther, same⟩ := List.mem_map.mp member
    exact le_antisymm (same ▸ bound other isOther) (greatest _ (List.mem_map_of_mem isPoint))
  rw [around,
    smallest Point.x box.left (fun point isPoint => (contains point isPoint .horizontal).1)
      ⟨_, topLeft, rfl⟩,
    smallest Point.y box.top (fun point isPoint => (contains point isPoint .vertical).1)
      ⟨_, topLeft, rfl⟩,
    largest Point.x box.right (fun point isPoint => (contains point isPoint .horizontal).2)
      ⟨_, bottomRight, rfl⟩,
    largest Point.y box.bottom (fun point isPoint => (contains point isPoint .vertical).2)
      ⟨_, bottomRight, rfl⟩]

/-! ## Boxes in frames -/

def moved (box : Box Rat) (offset : Point Rat) : Box Rat :=
  ⟨offset.x + box.left, offset.y + box.top, offset.x + box.right, offset.y + box.bottom⟩

def transposed (box : Box Rat) : Box Rat :=
  ⟨box.top, box.left, box.bottom, box.right⟩

@[simp]
theorem low_moved (box : Box Rat) (offset : Point Rat) (axis : Axis) :
    (box.moved offset).low axis = axis.of offset + box.low axis := by
  cases axis <;> rfl

@[simp]
theorem high_moved (box : Box Rat) (offset : Point Rat) (axis : Axis) :
    (box.moved offset).high axis = axis.of offset + box.high axis := by
  cases axis <;> rfl

@[simp]
theorem low_transposed (box : Box Rat) (axis : Axis) :
    box.transposed.low axis = box.low axis.turned := by
  cases axis <;> rfl

@[simp]
theorem high_transposed (box : Box Rat) (axis : Axis) :
    box.transposed.high axis = box.high axis.turned := by
  cases axis <;> rfl

end Box

namespace Frame

def box (frame : Frame Rat) (box : Box Rat) : Box Rat :=
  (if frame.rotated then box.transposed else box).moved frame.origin

variable (frame : Frame Rat) {first second : Box Rat}

@[simp]
theorem low_box (box : Box Rat) (axis : Axis) :
    (frame.box box).low axis = axis.of frame.origin + box.low (frame.axis axis) := by
  cases rotated : frame.rotated <;> simp [Frame.box, Frame.axis, rotated]

@[simp]
theorem high_box (box : Box Rat) (axis : Axis) :
    (frame.box box).high axis = axis.of frame.origin + box.high (frame.axis axis) := by
  cases rotated : frame.rotated <;> simp [Frame.box, Frame.axis, rotated]

theorem axis_axis (axis : Axis) : frame.axis (frame.axis axis) = axis := by
  cases rotated : frame.rotated <;> cases axis <;> simp [Frame.axis, rotated, Axis.turned]

theorem box_within (within : first.Within second) :
    (frame.box first).Within (frame.box second) := by
  intro axis
  simpa using within (frame.axis axis)

theorem box_beside (beside : first.Beside second) :
    (frame.box first).Beside (frame.box second) := by
  obtain ⟨axis, apart⟩ := beside
  exact ⟨frame.axis axis, by simpa [axis_axis] using apart⟩

theorem box_touched {boxes : List (Box Rat)} (touched : first.Touched boxes) :
    (frame.box first).Touched (boxes.map frame.box) := by
  intro axis
  simpa using touched (frame.axis axis)

theorem axis_shifted (corner : Point Rat) (axis : Axis) :
    (frame.shifted corner).axis axis = frame.axis axis :=
  rfl

theorem box_shifted (corner : Point Rat) (box : Box Rat) :
    (frame.shifted corner).box box = frame.box (box.moved corner) := by
  apply Box.eq_of_sides <;> intro axis
  · rw [low_box, axis_shifted, shifted, of_point, low_box, Box.low_moved, add_assoc]
  · rw [high_box, axis_shifted, shifted, of_point, high_box, Box.high_moved, add_assoc]

theorem axis_turned (corner : Point Rat) (axis : Axis) :
    (frame.turned corner).axis axis = (frame.axis axis).turned := by
  cases rotated : frame.rotated <;> cases axis <;> simp [Frame.axis, turned, rotated, Axis.turned]

theorem box_turned (corner : Point Rat) (box : Box Rat) :
    (frame.turned corner).box box = frame.box (box.transposed.moved corner) := by
  apply Box.eq_of_sides <;> intro axis
  · rw [low_box, axis_turned, turned, of_point, low_box, Box.low_moved, Box.low_transposed,
      add_assoc]
  · rw [high_box, axis_turned, turned, of_point, high_box, Box.high_moved, Box.high_transposed,
      add_assoc]

end Frame

/-! ## Boxes of wires -/

namespace Wire

def box (wire : Wire Rat) : Box Rat where
  left := min wire.start.x wire.finish.x
  top := min wire.start.y wire.finish.y
  right := max wire.start.x wire.finish.x
  bottom := max wire.start.y wire.finish.y

variable {wire : Wire Rat} {axis : Axis} {bound : Rat}

theorem low_box (wire : Wire Rat) (axis : Axis) :
    wire.box.low axis = min (axis.of wire.start) (axis.of wire.finish) := by
  cases axis <;> rfl

theorem high_box (wire : Wire Rat) (axis : Axis) :
    wire.box.high axis = max (axis.of wire.start) (axis.of wire.finish) := by
  cases axis <;> rfl

theorem le_low_box : bound ≤ wire.box.low axis ↔ ∀ point ∈ wire.ends, bound ≤ axis.of point := by
  simp [low_box, ends]

theorem high_box_le : wire.box.high axis ≤ bound ↔ ∀ point ∈ wire.ends, axis.of point ≤ bound := by
  simp [high_box, ends]

theorem box_contains {point : Point Rat} (isEnd : point ∈ wire.ends) : wire.box.Contains point :=
  fun _ => ⟨le_low_box.mp le_rfl point isEnd, high_box_le.mp le_rfl point isEnd⟩

theorem box_within {outer : Box Rat} (within : ∀ point ∈ wire.ends, outer.Contains point) :
    wire.box.Within outer :=
  fun axis => ⟨le_low_box.mpr fun point isEnd => (within point isEnd axis).1,
    high_box_le.mpr fun point isEnd => (within point isEnd axis).2⟩

/-- The box of a wire at one height has none. -/
theorem box_level {left right : Rat} (ordered : left ≤ right) (height : Rat) :
    (mk ⟨left, height⟩ ⟨right, height⟩).box = ⟨left, height, right, height⟩ := by
  simp [box, ordered]

theorem box_frame (frame : Frame Rat) (start finish : Point Rat) :
    (frame.wire start finish).box = frame.box (mk start finish).box := by
  apply Box.eq_of_sides <;> intro axis
  · rw [frame.low_box, low_box, low_box, Frame.wire, frame.of_point, frame.of_point,
      min_add_add_left]
  · rw [frame.high_box, high_box, high_box, Frame.wire, frame.of_point, frame.of_point,
      max_add_add_left]

end Wire

end Schematic
