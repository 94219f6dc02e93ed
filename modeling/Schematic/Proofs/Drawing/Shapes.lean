import Mathlib.Algebra.Order.Ring.Abs
import Mathlib.Tactic.Ring
import Schematic.Proofs.Tiling.Planar

/-!
# Points of shapes

A shape covers points of the plane: a path has the points that are drawn by its steps
and the stops between them, a rectangle and a circle have the points inside of them
too.  A shape is inside of a box if all its points are.
-/

namespace Schematic

namespace Box

/-- A box of some size around the middle of a picture. -/
def centred (width height : Rat) : Box Rat :=
  ⟨-(width / 2), -(height / 2), width / 2, height / 2⟩

variable {width height : Rat} {point : Point Rat}

theorem centred_contains : (centred width height).Contains point ↔
    |point.x| ≤ width / 2 ∧ |point.y| ≤ height / 2 := by
  rw [contains_iff, abs_le, abs_le]
  rfl

theorem centred_middle (contains : (centred width height).Contains point) :
    (centred width height).Contains ⟨0, 0⟩ := by
  obtain ⟨across, upwards⟩ := centred_contains.mp contains
  rw [centred_contains, abs_zero]
  exact ⟨(abs_nonneg _).trans across, (abs_nonneg _).trans upwards⟩

end Box

/-- A point of a disc is at most a radius away from the middle in every direction. -/
theorem abs_le_of_disc {across upwards radius : Rat} (positive : 0 ≤ radius)
    (disc : across ^ 2 + upwards ^ 2 ≤ radius ^ 2) : |across| ≤ radius ∧ |upwards| ≤ radius :=
  ⟨abs_le_of_sq_le_sq (by linarith [sq_nonneg upwards]) positive,
    abs_le_of_sq_le_sq (by linarith [sq_nonneg across]) positive⟩

/-! ## Paths -/

namespace PathStep

/-- Where the pen is after a step. -/
def target (pen : Point Rat) : PathStep Rat → Point Rat
  | .move target => target
  | .line target => target
  | .arch radius => ⟨pen.x + 2 * radius, pen.y⟩

/-- A point that is drawn by a step. -/
inductive Draws (pen : Point Rat) : PathStep Rat → Point Rat → Prop where
  | line {target point : Point Rat} :
      Wire.Passes ⟨pen, target⟩ point → Draws pen (.line target) point
  | arch {radius : Rat} {point : Point Rat} :
      (point.x - (pen.x + radius)) ^ 2 + (point.y - pen.y) ^ 2 = radius ^ 2 →
      point.y ≤ pen.y → Draws pen (.arch radius) point

/-- A point where the pen stops or that it draws while it takes some steps. -/
inductive Touch : Point Rat → List (PathStep Rat) → Point Rat → Prop where
  | stop {pen : Point Rat} {step : PathStep Rat} {rest : List (PathStep Rat)} :
      Touch pen (step :: rest) (step.target pen)
  | drawn {pen point : Point Rat} {step : PathStep Rat} {rest : List (PathStep Rat)} :
      step.Draws pen point → Touch pen (step :: rest) point
  | later {pen point : Point Rat} {step : PathStep Rat} {rest : List (PathStep Rat)} :
      Touch (step.target pen) rest point → Touch pen (step :: rest) point

/-- A step that ends in a box.  An arch has room above it as well. -/
def StaysIn (box : Box Rat) (pen : Point Rat) : PathStep Rat → Prop
  | .move target => box.Contains target
  | .line target => box.Contains target
  | .arch radius =>
      box.Contains ⟨pen.x + 2 * radius, pen.y⟩ ∧ 0 ≤ radius ∧ box.top ≤ pen.y - radius

/-- Steps that follow one another and all end in a box. -/
def StayIn (box : Box Rat) : Point Rat → List (PathStep Rat) → Prop
  | _, [] => True
  | pen, step :: rest => step.StaysIn box pen ∧ StayIn box (step.target pen) rest

variable {box : Box Rat} {pen point : Point Rat} {step : PathStep Rat}
  {steps : List (PathStep Rat)} {radius : Rat} {count : Nat}

theorem StaysIn.target (stays : step.StaysIn box pen) : box.Contains (step.target pen) := by
  cases step with
  | move => exact stays
  | line => exact stays
  | arch => exact stays.1

/-- A step from inside of a box to the inside draws inside. -/
theorem StaysIn.draws (stays : step.StaysIn box pen) (inside : box.Contains pen)
    (draws : step.Draws pen point) : box.Contains point := by
  cases draws with
  | line passes =>
      refine passes.contains.mono (Wire.box_within fun stop isEnd => ?_)
      simp only [Wire.ends, List.mem_cons, List.not_mem_nil, or_false] at isEnd
      rcases isEnd with rfl | rfl
      · exact inside
      · exact stays
  | @arch radius _ circle above =>
      obtain ⟨finish, positive, room⟩ := stays
      obtain ⟨⟨left, -⟩, -, bottom⟩ := Box.contains_iff.mp inside
      obtain ⟨⟨-, right⟩, -⟩ := Box.contains_iff.mp finish
      obtain ⟨across, upwards⟩ := abs_le_of_disc positive circle.le
      rw [abs_le] at across upwards
      dsimp only at right
      rw [Box.contains_iff]
      refine ⟨⟨?_, ?_⟩, ?_, ?_⟩ <;> linarith

/-- Steps that stay in a box touch only points in it. -/
theorem Touch.contains (touch : Touch pen steps point) (inside : box.Contains pen)
    (stay : StayIn box pen steps) : box.Contains point := by
  induction touch with
  | stop => exact stay.1.target
  | drawn draws => exact stay.1.draws inside draws
  | later _ ih => exact ih stay.1.target stay.2

/-- Arches in a row stay in a box that has room above the first one and to the right of
the last one. -/
theorem stayIn_arches (positive : 0 ≤ radius) (inside : box.Contains pen)
    (room : box.top ≤ pen.y - radius) (finish : pen.x + 2 * count * radius ≤ box.right) :
    StayIn box pen (List.replicate count (.arch radius)) := by
  induction count generalizing pen with
  | zero => trivial
  | succ count ih =>
      push_cast at finish
      have rest : 0 ≤ 2 * (count : Rat) * radius := by positivity
      obtain ⟨⟨left, -⟩, height⟩ := Box.contains_iff.mp inside
      have next : box.Contains ⟨pen.x + 2 * radius, pen.y⟩ :=
        Box.contains_iff.mpr ⟨⟨by linarith, by linarith⟩, height⟩
      exact ⟨⟨next, positive, room⟩, ih next room (by dsimp only [target]; linarith)⟩

theorem touch_arches (some : 0 < count) :
    Touch pen (List.replicate count (.arch radius)) ⟨pen.x + 2 * count * radius, pen.y⟩ := by
  induction count generalizing pen with
  | zero => cases some
  | succ count ih =>
      rw [List.replicate_succ]
      have shifted : pen.x + 2 * (count + 1 : Nat) * radius =
          pen.x + 2 * radius + 2 * count * radius := by
        push_cast
        ring
      rw [shifted]
      rcases Nat.eq_zero_or_pos count with rfl | more
      · rw [Nat.cast_zero, mul_zero, zero_mul, add_zero]
        exact .stop
      · exact .later (ih more)

end PathStep

/-! ## Shapes -/

namespace Shape

/-- A point of a shape.  A rectangle and a circle have the points inside of them too. -/
def Covers (point : Point Rat) : Shape Rat → Prop
  | .path steps => PathStep.Touch ⟨0, 0⟩ steps point
  | .rectangle corner width height _ =>
      Box.Contains ⟨corner.x, corner.y, corner.x + width, corner.y + height⟩ point
  | .circle centre radius _ =>
      (point.x - centre.x) ^ 2 + (point.y - centre.y) ^ 2 ≤ radius ^ 2

/-- A shape without a point outside of a box. -/
def Inside (box : Box Rat) (shape : Shape Rat) : Prop :=
  ∀ point, shape.Covers point → box.Contains point

/-- A shape with no negative radius, width or height. -/
def IsSized : Shape Rat → Prop
  | .path steps => ∀ radius, .arch radius ∈ steps → 0 ≤ radius
  | .rectangle _ width height _ => 0 ≤ width ∧ 0 ≤ height
  | .circle _ radius _ => 0 ≤ radius

variable {box outer : Box Rat} {shape : Shape Rat} {width height radius : Rat} {fill : Fill}
  {steps : List (PathStep Rat)}

theorem Inside.mono (inside : shape.Inside box) (within : box.Within outer) :
    shape.Inside outer :=
  fun point covers => (inside point covers).mono within

theorem inside_path (middle : box.Contains ⟨0, 0⟩) (stay : PathStep.StayIn box ⟨0, 0⟩ steps) :
    (Shape.path steps).Inside box :=
  fun _ touch => PathStep.Touch.contains touch middle stay

theorem inside_segment {start finish : Point Rat}
    (isStart : (Box.centred width height).Contains start)
    (isFinish : (Box.centred width height).Contains finish) :
    (Shape.path [.move start, .line finish]).Inside (Box.centred width height) :=
  inside_path (Box.centred_middle isStart) ⟨isStart, isFinish, trivial⟩

theorem inside_circle (positive : 0 ≤ radius) (wide : radius ≤ width / 2)
    (high : radius ≤ height / 2) :
    (Shape.circle ⟨0, 0⟩ radius fill).Inside (Box.centred width height) := by
  intro point covers
  simp only [Covers, sub_zero] at covers
  obtain ⟨across, upwards⟩ := abs_le_of_disc positive covers
  exact Box.centred_contains.mpr ⟨across.trans wide, upwards.trans high⟩

end Shape

end Schematic
