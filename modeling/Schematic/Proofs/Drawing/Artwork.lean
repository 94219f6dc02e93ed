import Mathlib.Tactic.NormNum
import Schematic.Proofs.Drawing.Shapes

/-!
# Pictures in their boxes

The picture of an element is drawn around the middle of its box.  Its body grows with
the box in some directions only: the gap of a capacitor, the arches of a coil and the
distance of a source from the edges have fixed lengths.  This file says which boxes
have room for a picture, with leads that run outwards from the body.
-/

namespace Schematic

/-! ## Pictures that fit -/

namespace Artwork

variable {width height reach radius terminalRadius x : Rat} {body picture : List (Shape Rat)}
  {fill : Fill} {steps : List (PathStep Rat)}

/-- A body between two leads, which reach from its sides to the edges of the box. -/
structure IsLed (width reach : Rat) (body : List (Shape Rat)) : Prop where
  /-- The body has its sides on the left and the right of the middle. -/
  positive : 0 ≤ reach
  /-- The sides are not beyond the edges of the box. -/
  outward : reach ≤ width / 2
  /-- No point of the body is beyond its sides. -/
  between : ∀ shape ∈ body, ∀ point, shape.Covers point → |point.x| ≤ reach
  left : ∃ shape ∈ body, shape.Covers ⟨-reach, 0⟩
  right : ∃ shape ∈ body, shape.Covers ⟨reach, 0⟩

/-- A picture that lies in its box, has no negative sizes, and has leads that run outwards
from its body. -/
structure Fits (width height : Rat) (picture : List (Shape Rat)) : Prop where
  inside : ∀ shape ∈ picture, shape.Inside (Box.centred width height)
  sized : ∀ shape ∈ picture, shape.IsSized
  led : ∃ reach body, picture = leads width reach ++ body ∧ IsLed width reach body

/-- The boxes that have room for the picture of a kind. -/
def HasRoom (kind : ElementKind) (width height : Rat) : Prop :=
  match kind with
  | .resistor | .impedance | .openCircuit => True
  | .capacitor => 10 ≤ width
  | .inductor => min 10 (width / 8) ≤ height / 2
  | .voltageSource | .currentSource => 4 ≤ width ∧ 4 ≤ height

theorem onSignal_inside (high : 0 ≤ height) (isInside : |x| ≤ width / 2) :
    (Box.centred width height).Contains (onSignal x) := by
  rw [Box.centred_contains, onSignal, Scalar.zero_eq, abs_zero]
  exact ⟨isInside, by linarith⟩

theorem lead_inside {start finish : Rat} (high : 0 ≤ height) (isStart : |start| ≤ width / 2)
    (isFinish : |finish| ≤ width / 2) : (lead start finish).Inside (Box.centred width height) :=
  Shape.inside_segment (onSignal_inside high isStart) (onSignal_inside high isFinish)

/-- Leads fit around a body that fits between its sides. -/
theorem fits_of_body (high : 0 ≤ height) (positive : 0 ≤ reach) (outward : reach ≤ width / 2)
    (inside : ∀ shape ∈ body, shape.Inside (Box.centred (2 * reach) height))
    (sized : ∀ shape ∈ body, shape.IsSized)
    (left : ∃ shape ∈ body, shape.Covers ⟨-reach, 0⟩)
    (right : ∃ shape ∈ body, shape.Covers ⟨reach, 0⟩) :
    Fits width height (leads width reach ++ body) where
  inside shape isShape := by
    have edge : |width / 2| ≤ width / 2 := by rw [abs_of_nonneg (positive.trans outward)]
    have side : |reach| ≤ width / 2 := by rwa [abs_of_nonneg positive]
    simp only [leads, List.cons_append, List.nil_append, List.mem_cons] at isShape
    rcases isShape with rfl | rfl | isBody
    · refine lead_inside high ?_ ?_
      · rwa [Scalar.half_eq, neg_div, abs_neg]
      · rwa [abs_neg]
    · exact lead_inside high side edge
    · refine (inside shape isBody).mono (Box.within_iff.mpr ?_)
      simp only [Box.centred]
      refine ⟨⟨?_, ?_⟩, le_rfl, le_rfl⟩ <;> linarith
  sized shape isShape := by
    simp only [leads, List.cons_append, List.nil_append, List.mem_cons] at isShape
    rcases isShape with rfl | rfl | isBody
    · simp [lead, Shape.IsSized]
    · simp [lead, Shape.IsSized]
    · exact sized shape isBody
  led := by
    refine ⟨reach, body, rfl, positive, outward, fun shape isBody point covers => ?_, left, right⟩
    have contains := (Box.centred_contains.mp (inside shape isBody point covers)).1
    linarith

/-! ## The kinds of pictures -/

theorem rectangle_fits {bodyWidth bodyHeight : Rat} (positiveWidth : 0 ≤ bodyWidth)
    (positiveHeight : 0 ≤ bodyHeight) (narrow : bodyWidth ≤ width) (low : bodyHeight ≤ height) :
    Fits width height (leads width (bodyWidth / 2) ++
      [.rectangle ⟨-bodyWidth / 2, -bodyHeight / 2⟩ bodyWidth bodyHeight fill]) := by
  apply fits_of_body (positiveHeight.trans low) (by linarith) (by linarith)
  · intro shape isShape point covers
    obtain rfl := List.mem_singleton.mp isShape
    refine Box.Contains.mono covers (Box.within_iff.mpr ?_)
    simp only [Box.centred]
    refine ⟨⟨?_, ?_⟩, ?_, ?_⟩ <;> linarith
  · intro shape isShape
    obtain rfl := List.mem_singleton.mp isShape
    exact ⟨positiveWidth, positiveHeight⟩
  all_goals
    refine ⟨_, List.mem_singleton_self _, Box.contains_iff.mpr ?_⟩
    dsimp only
    refine ⟨⟨?_, ?_⟩, ?_, ?_⟩ <;> linarith

/-- The body of a resistor is in proportion to its box, and never larger than the box. -/
theorem boxed_fits (wide : 0 < width) (high : 0 < height) (fill : Fill) :
    Fits width height (boxed fill width height) := by
  have bounds : ∀ limit side : Rat, 0 < limit → 0 < side →
      0 ≤ Scalar.smaller limit (side * Scalar.tenths 7) ∧
        Scalar.smaller limit (side * Scalar.tenths 7) ≤ side := by
    intro limit side positiveLimit positiveSide
    rw [Scalar.smaller_eq, Scalar.tenths_eq]
    push_cast
    exact ⟨le_min positiveLimit.le (by positivity), (min_le_right _ _).trans (by linarith)⟩
  obtain ⟨positiveWidth, narrow⟩ := bounds (Scalar.ofNat 70) width (by norm_num) wide
  obtain ⟨positiveHeight, low⟩ := bounds (Scalar.ofNat 20) height (by norm_num) high
  exact rectangle_fits positiveWidth positiveHeight narrow low

theorem plate_inside (isEdge : |x| ≤ width / 2) (high : |reach| ≤ height / 2) :
    (plate x reach).Inside (Box.centred width height) := by
  apply Shape.inside_segment
  · exact Box.centred_contains.mpr ⟨isEdge, by rwa [abs_neg]⟩
  · exact Box.centred_contains.mpr ⟨isEdge, high⟩

theorem plate_covers : (plate x reach).Covers ⟨x, 0⟩ :=
  .later (.drawn (.line ⟨1 / 2, by norm_num, by norm_num, by simp [PathStep.target]; ring⟩))

theorem capacitor_fits_iff (high : 0 < height) :
    Fits width height (capacitor width height) ↔ 10 ≤ width := by
  constructor
  · intro fits
    have isPlate : plate (Scalar.ofNat 5) (height * Scalar.tenths 4) ∈ capacitor width height := by
      simp [capacitor]
    have bound := (Box.centred_contains.mp (fits.inside _ isPlate _ plate_covers)).1
    norm_num at bound
    linarith
  · intro room
    have gap : |(Scalar.ofNat 5 : Rat)| = 5 := abs_of_nonneg (by norm_num)
    have reachBound : |height * Scalar.tenths 4| ≤ height / 2 := by
      rw [Scalar.tenths_eq, abs_of_nonneg (by positivity)]
      norm_num
      linarith
    apply fits_of_body high.le
    · norm_num
    · norm_num
      linarith
    · intro shape isShape
      simp only [List.mem_cons, List.not_mem_nil, or_false] at isShape
      rcases isShape with rfl | rfl
      · exact plate_inside (by rw [abs_neg, gap]; norm_num) reachBound
      · exact plate_inside (by rw [gap]; norm_num) reachBound
    · simp [plate, Shape.IsSized]
    · exact ⟨_, List.mem_cons_self, plate_covers⟩
    · exact ⟨_, List.mem_cons_of_mem _ List.mem_cons_self, plate_covers⟩

/-- Arches over the signal line, as many to the left of the middle as to the right. -/
def coil (radius : Rat) : Shape Rat :=
  .path (.move ⟨-(3 * radius), 0⟩ :: List.replicate turns (.arch radius))

theorem inductor_eq : inductor width =
    leads width (3 * min 10 (width / 8)) ++ [coil (min 10 (width / 8))] := by
  have isRadius : Scalar.smaller (Scalar.ofNat 10) (width / Scalar.ofNat 8) =
      min 10 (width / 8) := Scalar.smaller_eq _ _
  rw [inductor, isRadius]
  rfl

theorem coil_covers_top (positive : 0 ≤ radius) :
    (coil radius).Covers ⟨-(3 * radius) + radius, -radius⟩ :=
  .later (.drawn (.arch (by simp [PathStep.target]) (by simpa [PathStep.target] using positive)))

theorem coil_covers_finish : (coil radius).Covers ⟨3 * radius, 0⟩ := by
  have finish : PathStep.Touch ⟨-(3 * radius), 0⟩ (List.replicate turns (.arch radius))
      ⟨-(3 * radius) + 2 * (turns : Nat) * radius, 0⟩ := PathStep.touch_arches (by decide)
  have isFinish : -(3 * radius) + 2 * (turns : Nat) * radius = 3 * radius := by
    norm_num [turns]
    ring
  rw [isFinish] at finish
  exact .later finish

theorem coil_fits (positive : 0 ≤ radius) (narrow : 3 * radius ≤ width / 2)
    (low : radius ≤ height / 2) : Fits width height (leads width (3 * radius) ++ [coil radius]) := by
  have start : (Box.centred (2 * (3 * radius)) height).Contains ⟨-(3 * radius), 0⟩ := by
    refine onSignal_inside (by linarith) ?_
    rw [abs_neg, abs_of_nonneg (by linarith)]
    linarith
  apply fits_of_body (by linarith) (by linarith) narrow
  · intro shape isShape
    obtain rfl := List.mem_singleton.mp isShape
    refine Shape.inside_path (Box.centred_middle start) ⟨start, ?_⟩
    apply PathStep.stayIn_arches positive start
    · simp only [Box.centred]
      linarith
    · simp only [Box.centred, turns]
      push_cast
      linarith
  · intro shape isShape
    obtain rfl := List.mem_singleton.mp isShape
    refine fun other isArch => ?_
    obtain ⟨-, same⟩ := List.mem_replicate.mp (List.mem_of_ne_of_mem (by simp) isArch)
    cases same
    exact positive
  · exact ⟨_, List.mem_singleton_self _, .stop⟩
  · exact ⟨_, List.mem_singleton_self _, coil_covers_finish⟩

theorem inductor_fits_iff (wide : 0 < width) :
    Fits width height (inductor width) ↔ min 10 (width / 8) ≤ height / 2 := by
  have positive : 0 < min 10 (width / 8) := lt_min (by norm_num) (by linarith)
  have narrow : min 10 (width / 8) ≤ width / 8 := min_le_right _ _
  rw [inductor_eq]
  constructor
  · intro fits
    have top := fits.inside (coil (min 10 (width / 8))) (by simp) _ (coil_covers_top positive.le)
    have bound := (Box.centred_contains.mp top).2
    rwa [abs_neg, abs_of_pos positive] at bound
  · exact coil_fits positive.le (by linarith)

/-- A round body fits around marks that fit between its sides. -/
theorem source_fits (positive : 0 ≤ radius) (narrow : radius ≤ width / 2)
    (low : radius ≤ height / 2)
    (stay : PathStep.StayIn (Box.centred (2 * radius) height) ⟨0, 0⟩ steps)
    (straight : ∀ other, .arch other ∉ steps) :
    Fits width height (sourceBody width radius ++ [.path steps]) := by
  have isBody : sourceBody width radius ++ [.path steps] =
      leads width radius ++ [.circle ⟨0, 0⟩ radius .inherited, .path steps] := rfl
  have middle : (Box.centred (2 * radius) height).Contains ⟨0, 0⟩ := by
    rw [Box.centred_contains, abs_zero]
    constructor <;> linarith
  rw [isBody]
  apply fits_of_body (by linarith) positive narrow
  · intro shape isShape
    simp only [List.mem_cons, List.not_mem_nil, or_false] at isShape
    rcases isShape with rfl | rfl
    · exact Shape.inside_circle positive (by linarith) low
    · exact Shape.inside_path middle stay
  · intro shape isShape
    simp only [List.mem_cons, List.not_mem_nil, or_false] at isShape
    rcases isShape with rfl | rfl
    · exact positive
    · exact fun other isArch => absurd isArch (straight other)
  all_goals
    refine ⟨_, List.mem_cons_self, ?_⟩
    simp [Shape.Covers]

theorem sourceRadius_eq : sourceRadius width height = min height width / 2 - 2 := by
  rw [sourceRadius, Scalar.half_eq, Scalar.smaller_eq]
  rfl

/-- A source needs a box of four units, because its radius would be negative otherwise. -/
theorem room_of_fits_source (isSource : .circle (onSignal Scalar.zero) (sourceRadius width height)
    .inherited ∈ picture) (fits : Fits width height picture) : 4 ≤ width ∧ 4 ≤ height := by
  have positive : 0 ≤ sourceRadius width height := fits.sized _ isSource
  rw [sourceRadius_eq] at positive
  have room : 4 ≤ min height width := by linarith
  exact (le_min_iff.mp room).symm

theorem sourceRadius_bounds (wide : 4 ≤ width) (high : 4 ≤ height) :
    0 ≤ sourceRadius width height ∧ sourceRadius width height ≤ width / 2 ∧
      sourceRadius width height ≤ height / 2 := by
  have room : 4 ≤ min height width := le_min high wide
  have byWidth := min_le_right height width
  have byHeight := min_le_left height width
  rw [sourceRadius_eq]
  refine ⟨?_, ?_, ?_⟩ <;> linarith

theorem voltageSource_fits_iff :
    Fits width height (voltageSource width height) ↔ 4 ≤ width ∧ 4 ≤ height := by
  constructor
  · exact room_of_fits_source (by simp [voltageSource, sourceBody])
  · rintro ⟨wide, high⟩
    obtain ⟨positive, narrow, low⟩ := sourceRadius_bounds wide high
    rw [voltageSource]
    generalize sourceRadius width height = radius at *
    apply source_fits positive narrow low
    · simp only [PathStep.StayIn, PathStep.StaysIn, Box.centred_contains, onSignal, abs_le,
        Scalar.zero_eq, Scalar.half_eq, Scalar.ofNat_eq]
      push_cast
      refine ⟨?_, ?_, ?_, ?_, ?_, ?_, trivial⟩ <;>
        refine ⟨⟨?_, ?_⟩, ?_, ?_⟩ <;> linarith
    · simp

theorem currentSource_fits_iff :
    Fits width height (currentSource width height) ↔ 4 ≤ width ∧ 4 ≤ height := by
  constructor
  · exact room_of_fits_source (by simp [currentSource, sourceBody])
  · rintro ⟨wide, high⟩
    obtain ⟨positive, narrow, low⟩ := sourceRadius_bounds wide high
    rw [currentSource]
    generalize sourceRadius width height = radius at *
    apply source_fits positive narrow low
    · simp only [PathStep.StayIn, PathStep.StaysIn, Box.centred_contains, onSignal, abs_le,
        Scalar.zero_eq, Scalar.tenths_eq, Scalar.ofNat_eq]
      push_cast
      refine ⟨?_, ?_, ?_, ?_, ?_, trivial⟩ <;>
        refine ⟨⟨?_, ?_⟩, ?_, ?_⟩ <;> linarith
    · simp

theorem fits_iff_hasRoom (wide : 0 < width) (high : 0 < height) {kind : ElementKind}
    (connected : kind ≠ .openCircuit) :
    Fits width height (shapes terminalRadius kind width height) ↔ HasRoom kind width height := by
  cases kind with
  | resistor => exact iff_of_true (boxed_fits wide high _) trivial
  | impedance => exact iff_of_true (boxed_fits wide high _) trivial
  | capacitor => exact capacitor_fits_iff high
  | inductor => exact inductor_fits_iff wide
  | voltageSource => exact voltageSource_fits_iff
  | currentSource => exact currentSource_fits_iff
  | openCircuit => exact absurd rfl connected

/-- The terminals of an open circuit are at the edges of its box. -/
theorem openCircuit_centres (wide : 0 < width) (high : 0 < height) {shape : Shape Rat}
    (isShape : shape ∈ openCircuit terminalRadius width) :
    ∃ centre fill, shape = .circle centre terminalRadius fill ∧
      (Box.centred width height).Contains centre := by
  obtain ⟨x, isEdge, rfl⟩ := List.mem_map.mp isShape
  refine ⟨_, _, rfl, Box.centred_contains.mpr ⟨?_, ?_⟩⟩
  · simp only [List.mem_cons, List.not_mem_nil, or_false, Scalar.half_eq] at isEdge
    rcases isEdge with rfl | rfl
    · rw [onSignal, neg_div, abs_neg, abs_of_pos (by linarith)]
    · rw [onSignal, abs_of_pos (by linarith)]
  · rw [onSignal, Scalar.zero_eq, abs_zero]
    linarith

/-- The standard symbols have room for their pictures. -/
theorem standard_fits {kind : ElementKind} (connected : kind ≠ .openCircuit) :
    let symbol : Symbol Rat := .standard kind
    Fits symbol.width symbol.height (shapes terminalRadius kind symbol.width symbol.height) := by
  have room : ∀ kind, HasRoom kind (Symbol.standard kind : Symbol Rat).width
      (Symbol.standard kind : Symbol Rat).height := by
    intro kind
    cases kind <;> norm_num [HasRoom, Symbol.standard, Symbol.centred, Symbol.standardWidth]
  refine (fits_iff_hasRoom ?_ ?_ connected).mpr (room kind)
  all_goals
    cases kind <;> norm_num [Symbol.standard, Symbol.centred, Symbol.standardWidth]

end Artwork

open Artwork (Fits HasRoom shapes)

/-- The picture of an element lies in its box and has leads that run outwards exactly if
the box has room for the parts of fixed size.  A resistor or an impedance always has room.
The terminals of an open circuit are in the box in any case. -/
theorem picture_fits_iff_room {width height : Rat} (wide : 0 < width) (high : 0 < height)
    (terminalRadius : Rat) (kind : ElementKind) :
    (kind ≠ .openCircuit →
      (Fits width height (shapes terminalRadius kind width height) ↔
        HasRoom kind width height)) ∧
      (kind = .openCircuit → ∀ shape ∈ shapes terminalRadius kind width height,
        ∃ centre fill, shape = .circle centre terminalRadius fill ∧
          (Box.centred width height).Contains centre) := by
  refine ⟨Artwork.fits_iff_hasRoom wide high, ?_⟩
  rintro rfl shape isShape
  exact Artwork.openCircuit_centres wide high isShape

/-- A coil has room in a flat box if the box is narrow as well. -/
theorem picture_fits_iff_room_coil :
    (0 : Rat) < 40 ∧ (0 : Rat) < 10 ∧ Fits 40 10 (shapes 3 .inductor 40 10) :=
  ⟨by norm_num, by norm_num,
    ((picture_fits_iff_room (by norm_num) (by norm_num) 3 .inductor).1 (by decide)).mpr
      (by norm_num [HasRoom])⟩

/-- A narrow capacitor, a flat coil and a small source do not fit in their boxes. -/
theorem pictures_without_room :
    ¬Fits 6 40 (shapes 3 .capacitor 6 40) ∧ ¬Fits 100 10 (shapes 3 .inductor 100 10) ∧
      ¬Fits 2 2 (shapes 3 .voltageSource 2 2) := by
  have none : ∀ width height : Rat, 0 < width → 0 < height → ∀ kind, kind ≠ .openCircuit →
      ¬HasRoom kind width height → ¬Fits width height (shapes 3 kind width height) :=
    fun width height wide high kind connected noRoom fits =>
      noRoom ((Artwork.fits_iff_hasRoom wide high connected).mp fits)
  refine ⟨none 6 40 ?_ ?_ _ (by decide) ?_, none 100 10 ?_ ?_ _ (by decide) ?_,
    none 2 2 ?_ ?_ _ (by decide) ?_⟩ <;>
    norm_num [HasRoom]

end Schematic
