import Schematic.Proofs.Connectivity.Netlist
import Schematic.Proofs.Layout.Motion
import Schematic.Proofs.Layout.Sizing
import Schematic.Proofs.Layout.Starting

/-!
# Moving and transposing layouts

A layout with another origin is the same layout, shifted.  And a circuit that
hangs down is the circuit that runs to the right with the two axes exchanged,
unless a twoport is in it.
-/

namespace Schematic

/-! ## Changed layouts -/

namespace Layout

variable {α : Type}

mutual

/-- A layout with the placement of every node changed. -/
def map (change : Placement α → Placement α) : Layout α → Layout α
  | node placement children => node (change placement) (mapAll change children)

/-- Several layouts with the placement of every node changed. -/
def mapAll (change : Placement α → Placement α) : List (Layout α) → List (Layout α)
  | [] => []
  | layout :: rest => layout.map change :: mapAll change rest

end

variable (change : Placement α → Placement α)

theorem mapAll_eq (layouts : List (Layout α)) :
    mapAll change layouts = layouts.map (Layout.map change) := by
  induction layouts with
  | nil => rfl
  | cons layout rest ih => rw [mapAll, ih, List.map_cons]

@[simp]
theorem placement_map (layout : Layout α) :
    (layout.map change).placement = change layout.placement := by
  cases layout
  rfl

@[simp]
theorem children_map (layout : Layout α) :
    (layout.map change).children = layout.children.map (Layout.map change) := by
  cases layout
  exact mapAll_eq change _

mutual

/-- Changing placements keeps the order of the nodes. -/
theorem nodes_map : (layout : Layout α) →
    (layout.map change).nodes = layout.nodes.map (Layout.map change)
  | node placement children => by
      rw [map, nodes, nodes, nodesOfAll_mapAll children, List.map_cons, map]

theorem nodesOfAll_mapAll : (layouts : List (Layout α)) →
    nodesOfAll (mapAll change layouts) = (nodesOfAll layouts).map (Layout.map change)
  | [] => rfl
  | layout :: rest => by
      rw [mapAll, nodesOfAll, nodesOfAll, nodes_map layout, nodesOfAll_mapAll rest,
        List.map_append]

end

end Layout

namespace Placement

/-- A shifted placement.  A bus runs across the signal, so it is shifted along
it: to the right, or downwards if the circuit hangs down. -/
def shifted (shift : Point Rat) (placement : Placement Rat) : Placement Rat :=
  let along := if placement.rotated then shift.y else shift.x
  { placement with
    origin := placement.origin + shift
    wires := placement.wires.map fun wire => wire.shifted shift
    leftBus := placement.leftBus.map (· + along)
    rightBus := placement.rightBus.map (· + along)
    rail := placement.rail.map (· + shift.y) }

/-- A placement with the axes exchanged.  The places of buses are taken along
the signal, so they stay. -/
def transposed (placement : Placement Rat) : Placement Rat :=
  { placement with
    origin := placement.origin.transposed
    width := placement.height
    height := placement.width
    leftPort := placement.leftPort.transposed
    rightPort := placement.rightPort.transposed
    rotated := !placement.rotated
    wires := placement.wires.map Wire.transposed }

end Placement

namespace Motion

/-- The motion that shifts a drawing. -/
def shifting (shift : Point Rat) : Motion :=
  ⟨false, shift⟩

/-- The motion that exchanges the axes of a drawing. -/
def transposing : Motion :=
  ⟨true, ⟨0, 0⟩⟩

theorem placement_shifting (shift : Point Rat) :
    (shifting shift).placement = Placement.shifted shift := by
  have wires : (shifting shift).wire = fun wire => wire.shifted shift := by
    funext wire
    rw [Wire.shifted, Point.add_comm shift, Point.add_comm shift]
    rfl
  funext placement
  rw [Motion.placement, wires]
  simp [shifting, Motion.point, Motion.offset, Placement.shifted]

theorem point_transposing (point : Point Rat) : transposing.point point = point.transposed := by
  apply Point.eq_of_coordinates <;> simp [transposing, Motion.point, Motion.offset]

theorem placement_transposing : transposing.placement = Placement.transposed := by
  have wires : transposing.wire = Wire.transposed := by
    funext wire
    rw [Motion.wire, point_transposing, point_transposing, Wire.transposed]
  funext placement
  rw [Motion.placement, wires, point_transposing]
  simp [transposing, Motion.offset, Placement.transposed, Point.transposed]

theorem frame_shifting (shift : Point Rat) :
    (shifting shift).frame ⟨⟨0, 0⟩, false⟩ = ⟨shift, false⟩ := by
  have moved : (shifting shift).point ⟨0, 0⟩ = shift := by
    apply Point.eq_of_coordinates <;> simp [shifting, Motion.point, Motion.offset]
  rw [Motion.frame, moved]
  rfl

theorem frame_transposing (origin : Point Rat) :
    transposing.frame ⟨origin.transposed, false⟩ = ⟨origin, true⟩ := by
  rw [Motion.frame, point_transposing]
  rfl

end Motion

/-! ## Measures of a circuit -/

/-- Neither a twoport nor a link is in the circuit. -/
inductive Circuit.IsTwoportFree : Circuit → Prop where
  | element (element : Element) : IsTwoportFree (.element element)
  | series {members : List Circuit} :
      (∀ member ∈ members, IsTwoportFree member) → IsTwoportFree (.series members)
  | parallel {branches : List Circuit} :
      (∀ branch ∈ branches, IsTwoportFree branch) → IsTwoportFree (.parallel branches)

namespace Circuit.IsTwoportFree

variable {circuit : Circuit}

theorem ne_twoport (free : circuit.IsTwoportFree) (links : List (Link Circuit)) :
    circuit ≠ .twoport links := by
  rintro rfl
  cases free

theorem of_mem_parts (free : circuit.IsTwoportFree) {part : Circuit}
    (isPart : part ∈ circuit.parts) : part.IsTwoportFree := by
  cases free with
  | element => cases isPart
  | series members => exact members part isPart
  | parallel branches => exact branches part isPart

end Circuit.IsTwoportFree

/-- A measure that has one measure for each part of its circuit, of whatever
size. -/
inductive Measure.IsFaithful {α : Type} : Measure α → Prop where
  | node {extent : Extent α} {parts : List (Measure α)} :
      parts.map Measure.circuit = extent.circuit.parts →
      (∀ part ∈ parts, IsFaithful part) →
      IsFaithful (.node extent parts)

section

open Schematic.Measure

variable {α : Type} [Scalar α] {symbols : SymbolLibrary α} {settings : LayoutSettings α}

mutual

theorem measure_isFaithful : (circuit : Circuit) → {measure : Measure α} →
    circuit.measure symbols settings = .ok measure →
    measure.IsFaithful ∧ measure.circuit = circuit
  | .element single, measure, measured => by
      rw [Circuit.measure] at measured
      split at measured
      · cases measured
      · cases measured
        exact ⟨.node rfl (by simp), rfl⟩
  | .series members, measure, measured => by
      rw [Circuit.measure] at measured
      obtain ⟨parts, partsMeasured, measured⟩ := exists_of_bind_eq_ok measured
      obtain ⟨extent, extentMeasured, measured⟩ := exists_of_bind_eq_ok measured
      cases measured
      obtain ⟨faithful, circuits⟩ := measureAll_isFaithful members partsMeasured
      have same := seriesExtent_circuit extentMeasured
      exact ⟨.node (by rw [same, circuits]; rfl) faithful, same⟩
  | .parallel branches, measure, measured => by
      rw [Circuit.measure] at measured
      obtain ⟨parts, partsMeasured, measured⟩ := exists_of_bind_eq_ok measured
      obtain ⟨extent, extentMeasured, measured⟩ := exists_of_bind_eq_ok measured
      cases measured
      obtain ⟨faithful, circuits⟩ := measureAll_isFaithful branches partsMeasured
      have same := parallelExtent_circuit extentMeasured
      exact ⟨.node (by rw [same, circuits]; rfl) faithful, same⟩
  | .twoport links, measure, measured => by
      rw [Circuit.measure] at measured
      obtain ⟨parts, partsMeasured, measured⟩ := exists_of_bind_eq_ok measured
      cases measured
      obtain ⟨faithful, circuits⟩ := measureTargets_isFaithful links partsMeasured
      exact ⟨.node circuits faithful, rfl⟩
  | .link _, _, measured => by cases measured

theorem measureAll_isFaithful : (circuits : List Circuit) → {parts : List (Measure α)} →
    measureAll symbols settings circuits = .ok parts →
    (∀ part ∈ parts, part.IsFaithful) ∧ parts.map circuit = circuits
  | [], parts, measured => by
      cases measured
      simp
  | circuit :: rest, parts, measured => by
      rw [measureAll] at measured
      obtain ⟨first, firstMeasured, measured⟩ := exists_of_bind_eq_ok measured
      obtain ⟨others, othersMeasured, measured⟩ := exists_of_bind_eq_ok measured
      cases measured
      obtain ⟨firstFaithful, same⟩ := measure_isFaithful circuit firstMeasured
      obtain ⟨othersFaithful, circuits⟩ := measureAll_isFaithful rest othersMeasured
      exact ⟨by simpa using ⟨firstFaithful, othersFaithful⟩, by simp [same, circuits]⟩

theorem measureTargets_isFaithful : (links : List (Link Circuit)) →
    {parts : List (Measure α)} → measureTargets symbols settings links = .ok parts →
    (∀ part ∈ parts, part.IsFaithful) ∧ parts.map circuit = links.map Link.target
  | [], parts, measured => by
      cases measured
      simp
  | ⟨_, target⟩ :: rest, parts, measured => by
      rw [measureTargets] at measured
      obtain ⟨first, firstMeasured, measured⟩ := exists_of_bind_eq_ok measured
      obtain ⟨others, othersMeasured, measured⟩ := exists_of_bind_eq_ok measured
      cases measured
      obtain ⟨firstFaithful, same⟩ := measure_isFaithful target firstMeasured
      obtain ⟨othersFaithful, circuits⟩ := measureTargets_isFaithful rest othersMeasured
      exact ⟨by simpa using ⟨firstFaithful, othersFaithful⟩, by simp [same, circuits]⟩

end

end

/-! ## Placing in a moved frame -/

/-- A measure whose circuit can be turned: no twoport is in it. -/
def Measure.IsTurnable (measure : Measure Rat) : Prop :=
  measure.IsFaithful ∧ measure.circuit.IsTwoportFree

theorem Measure.IsTurnable.part {extent : Extent Rat} {parts : List (Measure Rat)}
    (turnable : Measure.IsTurnable (.node extent parts)) :
    ∀ part ∈ parts, part.IsTurnable := by
  obtain ⟨⟨circuits, faithful⟩, free⟩ := turnable
  intro part isPart
  have inCircuit : part.circuit ∈ extent.circuit.parts :=
    circuits ▸ List.mem_map_of_mem isPart
  exact ⟨faithful part isPart, free.of_mem_parts inCircuit⟩

section

variable (motion : Motion) (settings : LayoutSettings Rat)

mutual

theorem place_frame : (measure : Measure Rat) → (frame : Frame Rat) →
    (motion.turns = true → measure.IsTurnable) →
    measure.place settings (motion.frame frame) =
      (measure.place settings frame).map motion.placement
  | .node extent parts, frame, turnable => by
      rw [Measure.place, Measure.place, Layout.map,
        motion.placement_frame frame settings extent _ fun turns => (turnable turns).2.ne_twoport,
        motion.partFrames_frame,
        placeAll_frame parts _ fun turns => (turnable turns).part]

theorem placeAll_frame : (parts : List (Measure Rat)) → (frames : List (Frame Rat)) →
    (motion.turns = true → ∀ part ∈ parts, part.IsTurnable) →
    placeAll settings parts (frames.map motion.frame) =
      Layout.mapAll motion.placement (placeAll settings parts frames)
  | [], _, _ => rfl
  | _ :: _, [], _ => rfl
  | part :: parts, frame :: frames, turnable => by
      rw [List.map_cons, placeAll, placeAll, Layout.mapAll,
        place_frame part frame fun turns => turnable turns part List.mem_cons_self,
        placeAll_frame parts frames fun turns other isOther =>
          turnable turns other (List.mem_cons_of_mem part isOther)]

end

end

/-- Placing somewhere else is shifting. -/
theorem place_shifted (settings : LayoutSettings Rat) (measure : Measure Rat)
    (origin : Point Rat) :
    measure.place settings ⟨origin, false⟩ =
      (measure.place settings ⟨⟨0, 0⟩, false⟩).map (Placement.shifted origin) := by
  rw [← Motion.frame_shifting origin,
    place_frame _ settings measure _ (fun turns => by cases turns), Motion.placement_shifting]

/-- The layout with its top-left corner at another origin is the shifted layout, or
fails in the same way. -/
theorem layout_shifted (symbols : SymbolLibrary Rat) (settings : LayoutSettings Rat)
    (circuit : Circuit) (origin : Point Rat) (validate : Bool) :
    circuit.layout symbols (settings.starting origin validate) =
      (circuit.layout symbols (settings.starting ⟨0, 0⟩ validate)).map
        (Layout.map (Placement.shifted origin)) := by
  rw [layout_starting, layout_starting]
  cases circuit.measure symbols settings with
  | error fault => rfl
  | ok measure => exact congrArg Except.ok (place_shifted settings measure origin)

/-- A document that is read has the same layout at every origin, but for a shift
of nodes, wires, buses and rails.  And what is not a twoport, whatever its size
is, hangs down as it runs to the right, with the axes exchanged. -/
theorem layout_moves (symbols : SymbolLibrary Rat) (settings : LayoutSettings Rat) :
    (∀ text circuit (origin : Point Rat), Reading.parse text = .ok circuit →
      (∀ element ∈ circuit.elements, (symbols element.kind).isSome) →
      ∃ layout,
        circuit.layout symbols (settings.starting ⟨0, 0⟩ settings.validate) = .ok layout ∧
        circuit.layout symbols (settings.starting origin settings.validate) =
          .ok (layout.map (Placement.shifted origin))) ∧
    (∀ (measure : Measure Rat) (origin : Point Rat),
      measure.IsFaithful → measure.circuit.IsTwoportFree →
      measure.place settings ⟨origin, true⟩ =
        (measure.place settings ⟨origin.transposed, false⟩).map Placement.transposed) ∧
    ∀ circuit measure, Circuit.measure symbols settings circuit = .ok measure →
      measure.IsFaithful ∧ measure.circuit = circuit := by
  refine ⟨?_, ?_, fun circuit measure => measure_isFaithful circuit⟩
  · intro text circuit origin parsed known
    obtain ⟨measure, measured⟩ : ∃ measure, circuit.measure symbols settings = .ok measure :=
      (Reading.wellFormed_of_parse parsed).exists_measure known
    refine ⟨measure.place settings ⟨⟨0, 0⟩, false⟩, ?_, ?_⟩
    · rw [layout_starting, measured]
      rfl
    · rw [layout_shifted, layout_starting, measured]
      rfl
  · intro measure origin faithful free
    rw [← Motion.frame_transposing, place_frame _ settings measure _ fun _ => ⟨faithful, free⟩,
      Motion.placement_transposing]

/-- Settings that overlap branches and centre them, with leads that run upwards. -/
def LayoutSettings.crowded : LayoutSettings Rat :=
  ⟨-25, 1 / 3, -20, -40, 0, 0, .center, true⟩

theorem layout_moves_crowded :
    (∃ circuit layout, Reading.parse "-R1|(C2||(L3+V4))" = .ok circuit ∧
      circuit.layout .standard (LayoutSettings.crowded.starting ⟨0, 0⟩ true) = .ok layout ∧
      circuit.layout .standard (LayoutSettings.crowded.starting ⟨7 / 2, -5⟩ true) =
        .ok (layout.map (Placement.shifted ⟨7 / 2, -5⟩))) ∧
    ∃ measure : Measure Rat,
      Reading.parse "(C2||(L3+V4))" = .ok measure.circuit ∧
      measure.IsFaithful ∧ measure.circuit.IsTwoportFree ∧
      measure.place .crowded ⟨⟨9, 4⟩, true⟩ =
        (measure.place .crowded ⟨⟨4, 9⟩, false⟩).map Placement.transposed := by
  obtain ⟨moves, turns, faithful⟩ := layout_moves .standard .crowded
  have branches : Reading.parse "(C2||(L3+V4))" = .ok (.parallel [.element ⟨.capacitor, some "2"⟩,
      .series [.element ⟨.inductor, some "3"⟩, .element ⟨.voltageSource, some "4"⟩]]) := by
    apply eq_ok_of_toOption
    decide +kernel
  have ladder : Reading.parse "-R1|(C2||(L3+V4))" = .ok (.twoport [
      ⟨.series, .element ⟨.resistor, some "1"⟩⟩,
      ⟨.shunt, .parallel [.element ⟨.capacitor, some "2"⟩,
        .series [.element ⟨.inductor, some "3"⟩, .element ⟨.voltageSource, some "4"⟩]]⟩]) := by
    apply eq_ok_of_toOption
    decide +kernel
  constructor
  · obtain ⟨layout, atZero, shifted⟩ := moves _ _ ⟨7 / 2, -5⟩ ladder fun _ _ => rfl
    exact ⟨_, layout, ladder, atZero, shifted⟩
  · obtain ⟨measure, measured⟩ : ∃ measure : Measure Rat,
        Circuit.measure .standard .crowded _ = .ok measure :=
      (Reading.wellFormed_of_parse branches).exists_measure fun _ _ => rfl
    obtain ⟨isFaithful, same⟩ := faithful _ measure measured
    have free : measure.circuit.IsTwoportFree := by
      rw [same]
      refine .parallel (List.forall_mem_cons.mpr ⟨.element _, List.forall_mem_singleton.mpr ?_⟩)
      exact .series (List.forall_mem_cons.mpr
        ⟨.element _, List.forall_mem_singleton.mpr (.element _)⟩)
    exact ⟨measure, same ▸ branches, isFaithful, free, turns measure ⟨9, 4⟩ isFaithful free⟩

end Schematic
