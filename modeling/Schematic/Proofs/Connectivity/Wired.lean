import Schematic.Proofs.Connectivity.Drawn

/-!
# Wired ports

Points are wired if one can go from one to the other along wires, without
counting on anything between their ends.  This file proves that the layout of a
part connects all the ports that its circuit ties.
-/

namespace Schematic

open Schematic.Alignment (Side)

/-- A function that takes related members to joined ones takes joined members to
joined ones. -/
theorem joined_image {α β : Type} {relation : α → α → Prop} {other : β → β → Prop}
    (image : α → β)
    (each : ∀ first second, relation first second →
      Relation.EqvGen other (image first) (image second)) {first second : α}
    (joined : Relation.EqvGen relation first second) :
    Relation.EqvGen other (image first) (image second) := by
  induction joined with
  | rel first second related => exact each first second related
  | refl => exact .refl _
  | symm _ _ _ ih => exact ih.symm _ _
  | trans _ _ _ _ _ ihFirst ihSecond => exact ihFirst.trans _ _ _ ihSecond

/-- Points that are connected along wires. -/
def Wired (wires : List (Wire Rat)) : Point Rat → Point Rat → Prop :=
  Relation.EqvGen fun first second => ⟨first, second⟩ ∈ wires

namespace Wired

variable {wires others : List (Wire Rat)} {first second third : Point Rat} {frame : Frame Rat}

theorem of_eq (same : first = second) : Wired wires first second :=
  same ▸ .refl first

theorem symm (wired : Wired wires first second) : Wired wires second first :=
  Relation.EqvGen.symm _ _ wired

theorem trans (wired : Wired wires first second) (next : Wired wires second third) :
    Wired wires first third :=
  Relation.EqvGen.trans _ _ _ wired next

theorem mono (wired : Wired wires first second) (subset : ∀ wire ∈ wires, wire ∈ others) :
    Wired others first second :=
  Relation.EqvGen.mono (fun _ _ isWire => subset _ isWire) _ _ wired

/-- A connection wires its ends, even if they are the same. -/
theorem of_connect (connects : ∀ wire ∈ frame.connect first second, wire ∈ wires) :
    Wired wires (frame.point first) (frame.point second) := by
  by_cases same : first = second
  · exact of_eq (congrArg frame.point same)
  · exact .rel _ _ (connects _ (frame.mem_connect.mpr ⟨same, rfl⟩))

/-- A bus wires all its taps. -/
theorem of_busWires {x : Rat} {taps : List Rat} {top bottom : Rat}
    (connects : ∀ wire ∈ busWires frame x taps, wire ∈ wires) (isTop : top ∈ taps)
    (isBottom : bottom ∈ taps) : Wired wires (frame.point ⟨x, top⟩) (frame.point ⟨x, bottom⟩) := by
  refine joined_image (fun y => frame.point ⟨x, y⟩) ?_ (Network.joined_members isTop isBottom)
  intro high low isPair
  refine of_connect fun wire isWire => connects wire ?_
  rw [busWires_eq, List.mem_flatMap]
  exact ⟨_, isPair, isWire⟩

/-- Wired points are joined in the network. -/
theorem joined {ports : List (Point Rat)} (wired : Wired wires first second) :
    Relation.EqvGen
      (Network.Edge (Network.ofWires ports (wires.map Network.keyWire)).edges)
      (Network.key first) (Network.key second) := by
  refine joined_image Network.key ?_ wired
  intro start finish isWire
  exact Network.joined_wire (List.mem_map_of_mem isWire)

end Wired

/-! ## Ports by their paths -/

namespace Layout

variable {layout child : Layout Rat}

/-- The port of the node at a path. -/
def portAt (layout : Layout Rat) (path : List Nat) (side : Side) : Point Rat :=
  match layout.nodeAt? path with
  | some inner => inner.placement.portAt side
  | none => ⟨0, 0⟩

theorem portAt_of_nodeAt? {inner : Layout Rat} {path : List Nat}
    (found : layout.nodeAt? path = some inner) (side : Side) :
    layout.portAt path side = inner.placement.portAt side := by
  rw [portAt, found]

theorem portAt_cons {index : Nat} (found : layout.children[index]? = some child)
    (path : List Nat) (side : Side) :
    layout.portAt (index :: path) side = child.portAt path side := by
  rw [portAt, nodeAt?, found, Option.bind_some, portAt]

theorem mem_allWires {wire : Wire Rat} :
    wire ∈ layout.allWires ↔ ∃ node ∈ layout.nodes, wire ∈ node.placement.wires := by
  rw [allWires, walk_eq_nodes, List.mem_flatMap]

theorem mem_allWires_of_own {wire : Wire Rat} (isWire : wire ∈ layout.placement.wires) :
    wire ∈ layout.allWires :=
  mem_allWires.mpr ⟨layout, mem_nodes.mpr (.inl rfl), isWire⟩

theorem mem_allWires_of_child (isChild : child ∈ layout.children) {wire : Wire Rat}
    (isWire : wire ∈ child.allWires) : wire ∈ layout.allWires := by
  obtain ⟨inner, isNode, isOwn⟩ := mem_allWires.mp isWire
  exact mem_allWires.mpr ⟨inner, mem_nodes.mpr (.inr ⟨child, isChild, isNode⟩), isOwn⟩

/-- The wires of a layout are its own and those of its parts. -/
theorem mem_allWires_iff {wire : Wire Rat} : wire ∈ layout.allWires ↔
    wire ∈ layout.placement.wires ∨ ∃ child ∈ layout.children, wire ∈ child.allWires := by
  constructor
  · intro isWire
    obtain ⟨node, isNode, isOwn⟩ := mem_allWires.mp isWire
    rcases mem_nodes.mp isNode with rfl | ⟨child, isChild, inChild⟩
    · exact .inl isOwn
    · exact .inr ⟨child, isChild, mem_allWires.mpr ⟨node, inChild, isOwn⟩⟩
  · rintro (isOwn | ⟨child, isChild, isWire⟩)
    · exact mem_allWires_of_own isOwn
    · exact mem_allWires_of_child isChild isWire

/-- The layout connects all the ports that the circuit ties. -/
def Connects (layout : Layout Rat) (circuit : Circuit) : Prop :=
  ∀ path side otherPath otherSide,
    circuit.Tie (.port path side) (.port otherPath otherSide) →
      Wired layout.allWires (layout.portAt path side) (layout.portAt otherPath otherSide)

/-- What a part connects is connected in the whole layout. -/
theorem Connects.inside {part : Circuit} (connects : child.Connects part) {index : Nat}
    (found : layout.children[index]? = some child) {path otherPath : List Nat}
    {side otherSide : Side} (tie : part.Tie (.port path side) (.port otherPath otherSide)) :
    Wired layout.allWires (layout.portAt (index :: path) side)
      (layout.portAt (index :: otherPath) otherSide) := by
  rw [portAt_cons found, portAt_cons found]
  exact (connects _ _ _ _ tie).mono fun _ isWire =>
    mem_allWires_of_child (List.mem_of_getElem? found) isWire

end Layout

/-! ## Groups -/

variable {settings : LayoutSettings Rat} {measure part : Measure Rat} {frame : Frame Rat}

theorem Extent.IsRoomy.port {extent : Extent Rat} (roomy : extent.IsRoomy) (side : Side) :
    extent.port side =
      ⟨match side with
        | .left => 0
        | .right => extent.width, extent.height / 2⟩ := by
  cases side with
  | left => exact roomy.leftPort
  | right => exact roomy.rightPort

theorem place_portAt_nil (side : Side) :
    (measure.place settings frame).portAt [] side = frame.point (measure.extent.port side) := by
  rw [Layout.portAt_of_nodeAt? rfl, Measure.place_placement]
  exact portAt_placement side

theorem place_portAt_part (isGroup : measure.circuit.IsGroup) {index : Nat}
    (found : measure.parts[index]? = some part) (side : Side) :
    (measure.place settings frame).portAt [index] side = frame.point
      (partCorner settings measure.extent measure.extents index part.extent +
        part.extent.port side) := by
  have foundChild := @place_group_child settings measure frame isGroup index
  rw [found, Option.map_some] at foundChild
  rw [Layout.portAt_cons foundChild, place_portAt_nil, Frame.point_shifted]

theorem connects_inside (isGroup : measure.circuit.IsGroup) {circuits : List Circuit}
    (sameParts : measure.parts.map Measure.circuit = circuits)
    (each : ∀ part ∈ measure.parts, ∀ frame, (part.place settings frame).Connects part.circuit)
    {index : Nat} {circuit : Circuit} (found : circuits[index]? = some circuit)
    {path otherPath : List Nat} {side otherSide : Side}
    (tie : circuit.Tie (.port path side) (.port otherPath otherSide)) :
    Wired (measure.place settings frame).allWires
      ((measure.place settings frame).portAt (index :: path) side)
      ((measure.place settings frame).portAt (index :: otherPath) otherSide) := by
  rw [← sameParts, List.getElem?_map, Option.map_eq_some_iff] at found
  obtain ⟨part, found, rfl⟩ := found
  have foundChild := @place_group_child settings measure frame isGroup index
  rw [found, Option.map_some] at foundChild
  exact (each part (List.mem_of_getElem? found) _).inside foundChild tie

/-- Members of a series group are in a row. -/
theorem place_portAt_member {members : List Circuit} (isSeries : measure.circuit = .series members)
    (groupRoomy : measure.extent.IsRoomy) (roomy : part.extent.IsRoomy) {index : Nat}
    (found : measure.parts[index]? = some part) (side : Side) :
    (measure.place settings frame).portAt [index] side = frame.point
      ⟨startOf (measure.extents.map Extent.width)
        (match side with
          | .left => index
          | .right => index + 1), measure.extent.height / 2⟩ := by
  have isSeries' : measure.extent.circuit = .series members := isSeries
  have foundWidth : (measure.extents.map Extent.width)[index]? = some part.extent.width := by
    rw [List.getElem?_map, Measure.extents_getElem? found, Option.map_some]
  rw [place_portAt_part (.inl ⟨members, isSeries⟩) found, roomy.port]
  congr 1
  simp only [partCorner, isSeries', memberCorner, groupRoomy.leftPort, roomy.leftPort]
  cases side with
  | left => apply Point.eq_of_coordinates <;> simp
  | right => apply Point.eq_of_coordinates <;> simp [startOf_succ foundWidth]

theorem connects_series
    (isSeries : measure.circuit = .series (measure.parts.map Measure.circuit))
    (measured : seriesExtent measure.circuit measure.extents = .ok measure.extent)
    (roomy : ∀ part ∈ measure.parts, part.extent.IsRoomy)
    (each : ∀ part ∈ measure.parts, ∀ frame, (part.place settings frame).Connects part.circuit)
    (frame : Frame Rat) : (measure.place settings frame).Connects measure.circuit := by
  obtain ⟨groupRoomy, -⟩ := seriesExtent_isRoomy measured (roomy_extents roomy)
  have member : ∀ {index : Nat} (side : Side), index < measure.parts.length →
      (measure.place settings frame).portAt [index] side = frame.point
        ⟨startOf (measure.extents.map Extent.width)
          (match side with
            | .left => index
            | .right => index + 1), measure.extent.height / 2⟩ := by
    intro index side inRange
    have found := List.getElem?_eq_getElem inRange
    exact place_portAt_member isSeries groupRoomy (roomy _ (List.mem_of_getElem? found)) found side
  intro path side otherPath otherSide tie
  rw [isSeries] at tie
  cases tie with
  | first nonempty =>
      rw [List.length_map] at nonempty
      apply Wired.of_eq
      rw [place_portAt_nil, groupRoomy.port, member .left nonempty, startOf_zero]
  | next inRange =>
      rw [List.length_map] at inRange
      apply Wired.of_eq
      rw [member .right (by omega), member .left inRange]
  | last isLast =>
      rw [List.length_map] at isLast
      apply Wired.of_eq
      have whole : startOf (measure.extents.map Extent.width) measure.parts.length =
          measure.extent.width := by
        rw [seriesExtent_width measured, ← startOf_length, List.length_map, Measure.extents,
          List.length_map]
      rw [member .right (by omega), place_portAt_nil, groupRoomy.port, isLast, whole]
  | inside found tie => exact connects_inside (.inl ⟨_, isSeries⟩) rfl each found tie

section

variable {branches : List Circuit}

theorem mem_allWires_of_group (isParallel : measure.circuit = .parallel branches) {wire : Wire Rat}
    (isWire : wire ∈ parallelWires frame measure.extent
      (branchSlots settings measure.extent.width Scalar.zero measure.extents)) :
    wire ∈ (measure.place settings frame).allWires := by
  have isParallel' : measure.extent.circuit = .parallel branches := isParallel
  apply Layout.mem_allWires_of_own
  rwa [Measure.place_placement, placement, isParallel']

/-- What meets a bus is connected to the port of the group on the same side. -/
theorem wired_taps (isParallel : measure.circuit = .parallel branches)
    (groupRoomy : measure.extent.IsRoomy) :
    (∀ tap ∈ busTaps measure.extent.leftPort.y
        ((branchSlots settings measure.extent.width Scalar.zero measure.extents).map
          fun slot => slot.leftPort.y),
      Wired (measure.place settings frame).allWires (frame.point ⟨0, tap⟩)
        ((measure.place settings frame).portAt [] .left)) ∧
    ∀ tap ∈ busTaps measure.extent.leftPort.y
        ((branchSlots settings measure.extent.width Scalar.zero measure.extents).map
          fun slot => slot.rightPort.y),
      Wired (measure.place settings frame).allWires (frame.point ⟨measure.extent.width, tap⟩)
        ((measure.place settings frame).portAt [] .right) := by
  have own := fun wire => @mem_allWires_of_group settings measure frame branches isParallel wire
  simp only [parallelWires, List.mem_append] at own
  have port : measure.extent.leftPort.y = measure.extent.height / 2 := by rw [groupRoomy.leftPort]
  constructor <;> intro tap isTap
  · have bus := Wired.of_busWires (fun wire isWire => own wire (.inl (.inr isWire))) isTap
      (mem_busTaps.mpr (.inl rfl))
    rwa [place_portAt_nil, groupRoomy.port, ← port]
  · have bus := Wired.of_busWires (fun wire isWire => own wire (.inr isWire)) isTap
      (mem_busTaps.mpr (.inl rfl))
    rwa [place_portAt_nil, groupRoomy.port, ← port]

/-- The branches of a parallel group reach its buses. -/
theorem wired_branch (isParallel : measure.circuit = .parallel branches)
    (groupRoomy : measure.extent.IsRoomy) (roomy : part.extent.IsRoomy) {index : Nat}
    (found : measure.parts[index]? = some part) (side : Side) :
    Wired (measure.place settings frame).allWires
      ((measure.place settings frame).portAt [] side)
      ((measure.place settings frame).portAt [index] side) := by
  have isParallel' : measure.extent.circuit = .parallel branches := isParallel
  have isSlot := (@mem_branchSlots settings measure.extent.width measure.extents _).mpr
    ⟨index, part.extent, Measure.extents_getElem? found, rfl⟩
  have ports := branchSlot_ports roomy.isCentred
    (branchCorner settings measure.extent.width measure.extents index part.extent)
  have stub := fun wire isStub => @mem_allWires_of_group settings measure frame branches isParallel
    wire (List.mem_append_left _ (List.mem_append_left _ (List.mem_flatMap.mpr
      ⟨_, isSlot, isStub⟩)))
  simp only [BranchSlot.stubs, List.mem_append] at stub
  obtain ⟨leftBus, rightBus⟩ := @wired_taps settings measure frame branches isParallel groupRoomy
  have corner := @place_portAt_part settings measure part frame (.inr ⟨branches, isParallel⟩) index
    found side
  rw [roomy.port, partCorner, isParallel'] at corner
  rw [corner]
  cases side with
  | left =>
      have lead := Wired.of_connect fun wire isWire => stub wire (.inl isWire)
      have bus := leftBus _ (mem_busTaps.mpr (.inr
        (List.mem_map_of_mem (f := fun slot => slot.leftPort.y) isSlot)))
      rw [ports.1] at bus lead
      refine (bus.symm.trans lead).trans (.of_eq (congrArg frame.point ?_))
      apply Point.eq_of_coordinates <;> simp
  | right =>
      have lead := Wired.of_connect fun wire isWire => stub wire (.inr isWire)
      have bus := rightBus _ (mem_busTaps.mpr (.inr
        (List.mem_map_of_mem (f := fun slot => slot.rightPort.y) isSlot)))
      rw [ports.2] at bus lead
      refine (bus.symm.trans lead.symm).trans (.of_eq (congrArg frame.point ?_))
      apply Point.eq_of_coordinates <;> simp

end

theorem connects_parallel
    (isParallel : measure.circuit = .parallel (measure.parts.map Measure.circuit))
    (groupRoomy : measure.extent.IsRoomy)
    (roomy : ∀ part ∈ measure.parts, part.extent.IsRoomy)
    (each : ∀ part ∈ measure.parts, ∀ frame, (part.place settings frame).Connects part.circuit)
    (frame : Frame Rat) : (measure.place settings frame).Connects measure.circuit := by
  intro path side otherPath otherSide tie
  rw [isParallel] at tie
  cases tie with
  | branch side inRange =>
      rw [List.length_map] at inRange
      have found := List.getElem?_eq_getElem inRange
      exact wired_branch isParallel groupRoomy (roomy _ (List.mem_of_getElem? found)) found side
  | inside found tie => exact connects_inside (.inr ⟨_, isParallel⟩) rfl each found tie

/-- The layout of a part connects all the ports that its circuit ties. -/
theorem Measure.Sized.connects (sized : measure.Sized SymbolLibrary.standard settings)
    (nonnegative : settings.IsNonnegative) (frame : Frame Rat) :
    (measure.place settings frame).Connects measure.circuit := by
  induction sized generalizing frame with
  | element known =>
      intro path side otherPath otherSide tie
      cases tie with
      | inside found _ => cases found
  | @series members extent two sized measured ih =>
      refine @connects_series settings (.node extent members) (seriesExtent_circuit measured) ?_
        (fun part isPart => (sized part isPart).isRoomy nonnegative) ih frame
      rw [Measure.circuit, Measure.extent, seriesExtent_circuit measured]
      exact measured
  | @parallel branches extent two sized measured ih =>
      exact @connects_parallel settings (.node extent branches) (parallelExtent_circuit measured)
        ((Sized.parallel two sized measured).isRoomy nonnegative)
        (fun part isPart => (sized part isPart).isRoomy nonnegative) ih frame

end Schematic
