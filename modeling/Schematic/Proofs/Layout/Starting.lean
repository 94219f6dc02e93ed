import Schematic.Layout.Place

/-!
# Layouts that start elsewhere

The spacing of a layout alone decides how its circuits are measured and placed
in a frame.  Where the layout starts, and whether it is going to be checked,
plays no part in this.
-/

namespace Schematic

variable {α : Type}

/-- The settings with another origin and another choice whether to check. -/
def LayoutSettings.starting (settings : LayoutSettings α) (origin : Point α) (validate : Bool) :
    LayoutSettings α :=
  { settings with originX := origin.x, originY := origin.y, validate }

variable [Scalar α] (symbols : SymbolLibrary α) (settings : LayoutSettings α) (origin : Point α)
  (validate : Bool)

mutual

theorem measure_starting : (circuit : Circuit) →
    circuit.measure symbols (settings.starting origin validate) =
      circuit.measure symbols settings
  | .element _ => rfl
  | .series members => by
      rw [Circuit.measure, Circuit.measure, measureAll_starting members]
  | .parallel branches => by
      rw [Circuit.measure, Circuit.measure, measureAll_starting branches]
      rfl
  | .twoport links => by
      rw [Circuit.measure, Circuit.measure, measureTargets_starting links]
      rfl
  | .link _ => rfl

theorem measureAll_starting : (circuits : List Circuit) →
    measureAll symbols (settings.starting origin validate) circuits =
      measureAll symbols settings circuits
  | [] => rfl
  | circuit :: rest => by
      rw [measureAll, measureAll, measure_starting circuit, measureAll_starting rest]

theorem measureTargets_starting : (links : List (Link Circuit)) →
    measureTargets symbols (settings.starting origin validate) links =
      measureTargets symbols settings links
  | [] => rfl
  | ⟨_, target⟩ :: rest => by
      rw [measureTargets, measureTargets, measure_starting target, measureTargets_starting rest]

end

theorem branchSlots_starting (width y : α) (branches : List (Extent α)) :
    branchSlots (settings.starting origin validate) width y branches =
      branchSlots settings width y branches := by
  induction branches generalizing y with
  | nil => rfl
  | cons branch rest ih =>
      rw [branchSlots, branchSlots, ih]
      rfl

theorem linkSlots_starting (x : α) (links : List (LinkKind × Extent α)) :
    linkSlots (settings.starting origin validate) x links = linkSlots settings x links := by
  induction links generalizing x with
  | nil => rfl
  | cons link rest ih =>
      rw [linkSlots, linkSlots, ih]
      rfl

theorem partFrames_starting (extent : Extent α) (parts : List (Extent α)) (frame : Frame α) :
    partFrames (settings.starting origin validate) extent parts frame =
      partFrames settings extent parts frame := by
  unfold partFrames
  simp only [branchSlots_starting, linkSlots_starting]
  rfl

theorem placement_starting (extent : Extent α) (parts : List (Extent α)) (frame : Frame α) :
    placement (settings.starting origin validate) extent parts frame =
      placement settings extent parts frame := by
  unfold placement
  simp only [branchSlots_starting, linkSlots_starting]
  rfl

mutual

theorem place_starting : (measure : Measure α) → (frame : Frame α) →
    measure.place (settings.starting origin validate) frame = measure.place settings frame
  | .node extent parts, frame => by
      rw [Measure.place, Measure.place, placement_starting, partFrames_starting,
        placeAll_starting parts]

theorem placeAll_starting : (parts : List (Measure α)) → (frames : List (Frame α)) →
    placeAll (settings.starting origin validate) parts frames = placeAll settings parts frames
  | [], _ => rfl
  | _ :: _, [] => rfl
  | part :: parts, frame :: frames => by
      rw [placeAll, placeAll, place_starting part, placeAll_starting parts]

end

/-- A layout that starts elsewhere places the same measure in another frame. -/
theorem layout_starting (circuit : Circuit) :
    circuit.layout symbols (settings.starting origin validate) =
      (circuit.measure symbols settings).map fun measure =>
        measure.place settings ⟨origin, false⟩ := by
  rw [Circuit.layout, measure_starting]
  simp only [place_starting]
  rfl

end Schematic
