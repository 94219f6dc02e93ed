import Schematic.Proofs.Connectivity.Marks
import Schematic.Proofs.Layout.Wiring

/-!
# Layouts draw their pictures

A layout has its nodes at the paths of the parts of its circuit.  This file
proves that every wire of the layout of a part, and every port of an element in
it, is in the picture of the part.
-/

namespace Schematic

open Schematic.Alignment (Side)

/-- A wire of a frame in the drawing. -/
def Frame.image (frame : Frame Rat) (wire : Wire Rat) : Wire Rat :=
  frame.wire wire.start wire.finish

theorem Frame.image_shifted (frame : Frame Rat) (corner : Point Rat) (wire : Wire Rat) :
    (frame.shifted corner).image wire = frame.image (wire.shifted corner) := by
  simp only [image, Frame.wire, Frame.point_shifted, Wire.shifted]

variable {settings : LayoutSettings Rat} {measure : Measure Rat} {frame : Frame Rat}

/-- A group of parts that run along its own signal. -/
def Circuit.IsGroup (circuit : Circuit) : Prop :=
  (∃ members, circuit = .series members) ∨ ∃ branches, circuit = .parallel branches

theorem partFrames_group (isGroup : measure.circuit.IsGroup) (index : Nat) :
    (partFrames settings measure.extent measure.extents frame)[index]? =
      measure.extents[index]?.map fun part =>
        frame.shifted (partCorner settings measure.extent measure.extents index part) := by
  rcases isGroup with ⟨members, isSeries⟩ | ⟨branches, isParallel⟩
  · have isSeries : measure.extent.circuit = .series members := isSeries
    rw [partFrames_series isSeries]
    simp only [partCorner, isSeries]
  · have isParallel : measure.extent.circuit = .parallel branches := isParallel
    rw [partFrames_parallel isParallel]
    simp only [partCorner, isParallel]

/-- The layouts of the parts of a group. -/
theorem place_group_child (isGroup : measure.circuit.IsGroup) (index : Nat) :
    (measure.place settings frame).children[index]? = measure.parts[index]?.map fun part =>
      part.place settings (frame.shifted
        (partCorner settings measure.extent measure.extents index part.extent)) := by
  apply Option.ext
  intro child
  rw [Measure.place_child, Option.map_eq_some_iff]
  simp only [partFrames_group isGroup]
  constructor
  · rintro ⟨part, partFrame, found, foundFrame, rfl⟩
    rw [Measure.extents_getElem? found, Option.map_some, Option.some_inj] at foundFrame
    exact ⟨part, found, by rw [foundFrame]⟩
  · rintro ⟨part, found, rfl⟩
    exact ⟨part, _, found, by rw [Measure.extents_getElem? found, Option.map_some], rfl⟩

/-! ## Nodes and parts -/

/-- A layout has a node for each part of a circuit, and no others. -/
def Mirrors (layout : Layout Rat) (circuit : Circuit) : Prop :=
  ∀ path, (layout.nodeAt? path).map (fun node => node.placement.circuit) = circuit.partAt? path

theorem mirrors_of_children {layout : Layout Rat} {circuit : Circuit}
    (root : layout.placement.circuit = circuit)
    (children : ∀ index : Nat, Option.Rel Mirrors layout.children[index]? circuit.parts[index]?) :
    Mirrors layout circuit := by
  intro path
  cases path with
  | nil => simp [Layout.nodeAt?, Circuit.partAt?, root]
  | cons index path =>
      have each := children index
      rw [Layout.nodeAt?, Circuit.partAt?]
      generalize layout.children[index]? = child at each
      generalize circuit.parts[index]? = part at each
      cases each with
      | some mirrors => exact mirrors path
      | none => rfl

theorem mirrors_group (isGroup : measure.circuit.IsGroup)
    (sameParts : measure.circuit.parts = measure.parts.map Measure.circuit)
    (each : ∀ part ∈ measure.parts, ∀ frame, Mirrors (part.place settings frame) part.circuit) :
    Mirrors (measure.place settings frame) measure.circuit := by
  apply mirrors_of_children
  · rw [Measure.place_placement, placement_circuit]
    rfl
  · intro index
    rw [place_group_child isGroup, sameParts, List.getElem?_map]
    cases found : measure.parts[index]? with
    | none => exact .none
    | some part => exact .some (each part (List.mem_of_getElem? found) _)

section

variable {parts : List (Measure Rat)} {extent : Extent Rat}

theorem isGroup_series {members : List Circuit}
    (measured : seriesExtent (.series members) (parts.map Measure.extent) = .ok extent) :
    (Measure.node extent parts).circuit.IsGroup :=
  .inl ⟨members, seriesExtent_circuit measured⟩

theorem isGroup_parallel {branches : List Circuit}
    (measured : parallelExtent settings (.parallel branches) (parts.map Measure.extent) =
      .ok extent) : (Measure.node extent parts).circuit.IsGroup :=
  .inr ⟨branches, parallelExtent_circuit measured⟩

end

/-- The layout of a part mirrors its circuit. -/
theorem Measure.Sized.mirrors {symbols : SymbolLibrary Rat}
    (sized : measure.Sized symbols settings) (frame : Frame Rat) :
    Mirrors (measure.place settings frame) measure.circuit := by
  induction sized generalizing frame with
  | element known =>
      apply mirrors_of_children
      · rfl
      · intro index
        exact .none
  | series two parts measured ih =>
      have circuit := seriesExtent_circuit measured
      refine mirrors_group (isGroup_series measured) ?_ ih
      rw [Measure.circuit, Measure.extent, circuit]
      rfl
  | parallel two parts measured ih =>
      have circuit := parallelExtent_circuit measured
      refine mirrors_group (isGroup_parallel measured) ?_ ih
      rw [Measure.circuit, Measure.extent, circuit]
      rfl

/-! ## Wires and ports -/

theorem mem_busWires {x : Rat} {taps : List Rat} {wire : Wire Rat}
    (isWire : wire ∈ busWires frame x taps) :
    ∃ top ∈ taps, ∃ bottom ∈ taps, wire = frame.image ⟨⟨x, top⟩, ⟨x, bottom⟩⟩ := by
  obtain ⟨top, isTop, bottom, isBottom, connected⟩ := exists_taps_of_mem_busWires isWire
  exact ⟨top, isTop, bottom, isBottom, (frame.mem_connect.mp connected).2⟩

/-- The wires of a parallel group are its stubs and buses. -/
theorem mem_parallelWires {extent : Extent Rat} {slots : List (BranchSlot Rat)} {wire : Wire Rat}
    (isWire : wire ∈ parallelWires frame extent slots) :
    ∃ side inner, GroupWire extent slots side inner ∧ wire = frame.image inner := by
  simp only [parallelWires, BranchSlot.stubs, List.mem_append, List.mem_flatMap] at isWire
  rcases isWire with (⟨slot, isSlot, left | right⟩ | leftBus) | rightBus
  · exact ⟨_, _, .leftStub isSlot, (frame.mem_connect.mp left).2⟩
  · exact ⟨_, _, .rightStub isSlot, (frame.mem_connect.mp right).2⟩
  · obtain ⟨top, isTop, bottom, isBottom, same⟩ := mem_busWires leftBus
    exact ⟨_, _, .leftBus isTop isBottom, same⟩
  · obtain ⟨top, isTop, bottom, isBottom, same⟩ := mem_busWires rightBus
    exact ⟨_, _, .rightBus isTop isBottom, same⟩

section

variable {Label : Type}

/-- Every wire of a layout is in a picture. -/
def WiresIn (layout : Layout Rat) (frame : Frame Rat) (picture : Picture Label) : Prop :=
  ∀ node ∈ layout.nodes, ∀ wire ∈ node.placement.wires,
    ∃ inner label, picture inner label ∧ wire = frame.image inner

theorem wiresIn_group (isGroup : measure.circuit.IsGroup)
    (each : ∀ part ∈ measure.parts, ∀ frame (labels : PortLabels Label),
      WiresIn (part.place settings frame) frame (Marks settings part labels))
    (frame : Frame Rat) (labels : PortLabels Label) :
    WiresIn (measure.place settings frame) frame (Marks settings measure labels) := by
  intro node isNode wire isWire
  rcases Layout.mem_nodes.mp isNode with rfl | ⟨child, isChild, inChild⟩
  · rw [Measure.place_placement] at isWire
    rcases isGroup with ⟨members, isSeries⟩ | ⟨branches, isParallel⟩
    · have isSeries' : measure.extent.circuit = .series members := isSeries
      rw [placement, isSeries'] at isWire
      cases isWire
    · have isParallel' : measure.extent.circuit = .parallel branches := isParallel
      rw [placement, isParallel'] at isWire
      obtain ⟨side, inner, isGroupWire, same⟩ := mem_parallelWires isWire
      exact ⟨inner, _, .own isParallel isGroupWire, same⟩
  · obtain ⟨index, found⟩ := List.mem_iff_getElem?.mp isChild
    rw [place_group_child isGroup, Option.map_eq_some_iff] at found
    obtain ⟨part, foundPart, rfl⟩ := found
    obtain ⟨inner, label, isMark, rfl⟩ := each part (List.mem_of_getElem? foundPart) _
      (labels.within index) node inChild wire isWire
    exact ⟨_, label, .part foundPart isMark, frame.image_shifted _ inner⟩

/-- Every wire of the layout of a part is in the picture of the part. -/
theorem Measure.Sized.wiresIn {symbols : SymbolLibrary Rat}
    (sized : measure.Sized symbols settings) (frame : Frame Rat) (labels : PortLabels Label) :
    WiresIn (measure.place settings frame) frame (Marks settings measure labels) := by
  induction sized generalizing frame labels with
  | element known =>
      intro node isNode wire isWire
      rcases Layout.mem_nodes.mp isNode with rfl | ⟨child, isChild, -⟩
      · cases isWire
      · cases isChild
  | series two parts measured ih =>
      exact wiresIn_group (isGroup_series measured) ih frame labels
  | parallel two parts measured ih =>
      exact wiresIn_group (isGroup_parallel measured) ih frame labels

/-- Every port of an element in a layout is in a picture, with its own label. -/
def PortsIn (layout : Layout Rat) (frame : Frame Rat) (labels : PortLabels Label)
    (picture : Picture Label) : Prop :=
  ∀ path node element side, layout.nodeAt? path = some node →
    node.placement.circuit = .element element →
    ∃ point, picture (.dot point) (labels path side) ∧
      node.placement.portAt side = frame.point point

theorem portAt_placement {extent : Extent Rat} {parts : List (Extent Rat)} (side : Side) :
    (placement settings extent parts frame).portAt side = frame.point (extent.port side) := by
  cases side with
  | left => exact placement_leftEnd
  | right => exact placement_rightEnd

theorem portsIn_group (isGroup : measure.circuit.IsGroup)
    (each : ∀ part ∈ measure.parts, ∀ frame (labels : PortLabels Label),
      PortsIn (part.place settings frame) frame labels (Marks settings part labels))
    (frame : Frame Rat) (labels : PortLabels Label) :
    PortsIn (measure.place settings frame) frame labels (Marks settings measure labels) := by
  intro path node element side found isElement
  cases path with
  | nil =>
      cases found
      rw [Measure.place_placement, placement_circuit] at isElement
      rcases isGroup with ⟨members, isSeries⟩ | ⟨branches, isParallel⟩
      · exact absurd (isSeries.symm.trans isElement) (by simp)
      · exact absurd (isParallel.symm.trans isElement) (by simp)
  | cons index path =>
      obtain ⟨child, foundChild, found⟩ := Option.bind_eq_some_iff.mp found
      rw [place_group_child isGroup, Option.map_eq_some_iff] at foundChild
      obtain ⟨part, foundPart, rfl⟩ := foundChild
      obtain ⟨point, isMark, same⟩ := each part (List.mem_of_getElem? foundPart) _
        (labels.within index) path node element side found isElement
      rw [Frame.point_shifted] at same
      exact ⟨_, .part foundPart isMark, same⟩

/-- Every port of an element in the layout of a part is in the picture. -/
theorem Measure.Sized.portsIn {symbols : SymbolLibrary Rat}
    (sized : measure.Sized symbols settings) (frame : Frame Rat) (labels : PortLabels Label) :
    PortsIn (measure.place settings frame) frame labels (Marks settings measure labels) := by
  induction sized generalizing frame labels with
  | element known =>
      intro path node element side found isElement
      cases path with
      | nil =>
          cases found
          refine ⟨_, .port side rfl, ?_⟩
          rw [Measure.place_placement]
          exact portAt_placement side
      | cons index path => cases found
  | series two parts measured ih =>
      exact portsIn_group (isGroup_series measured) ih frame labels
  | parallel two parts measured ih =>
      exact portsIn_group (isGroup_parallel measured) ih frame labels

end

end Schematic
