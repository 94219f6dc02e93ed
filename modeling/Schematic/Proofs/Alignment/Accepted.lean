import Schematic.Proofs.Alignment.Wires
import Schematic.Proofs.Layout.Sizing
import Schematic.Proofs.Layout.Walk

/-!
# Layouts are aligned

The check of a layout looks at every node with the placements of its parts.
This file proves that it finds nothing at the layout of a well-formed circuit,
whatever the settings are, as long as all symbols are straight.
-/

namespace Schematic

namespace Alignment

variable {symbols : SymbolLibrary Rat} {settings : LayoutSettings Rat} {frame : Frame Rat}

/-! ## Series groups -/

/-- A member of a series group starts on the line of the group. -/
theorem memberCorner_leftPort {member : Extent Rat} (straight : member.IsStraight) (line : Rat)
    (members : List (Extent Rat)) (index : Nat) :
    memberCorner line members index member + member.leftPort =
      ⟨startOf (members.map Extent.width) index, line⟩ := by
  have left : member.leftPort.x = 0 := straight.left
  apply Point.eq_of_coordinates <;> simp [memberCorner, left]

/-- A member of a series group ends where the next one starts. -/
theorem memberCorner_rightPort {member : Extent Rat} (straight : member.IsStraight) (line : Rat)
    {members : List (Extent Rat)} {index : Nat} (found : members[index]? = some member) :
    memberCorner line members index member + member.rightPort =
      ⟨startOf (members.map Extent.width) (index + 1), line⟩ := by
  have width : (members.map Extent.width)[index]? = some member.width := by simp [found]
  rw [startOf_succ width, straight.right]
  apply Point.eq_of_coordinates <;> simp [memberCorner]

/-- Members of a series group that follow one another meet. -/
theorem seriesNeighbours_meet {measure : Measure Rat} {members : List Circuit}
    (isSeries : measure.extent.circuit = .series members)
    (straight : ∀ part ∈ measure.parts, part.extent.IsStraight) {index : Nat}
    {left right : Placement Rat}
    (foundLeft : ((measure.place settings frame).children.map Layout.placement)[index]? =
      some left)
    (foundRight : ((measure.place settings frame).children.map Layout.placement)[index + 1]? =
      some right) :
    left.rightEnd = right.leftEnd ∧
      (measure.place settings frame).placement.along left.bottomRight =
        (measure.place settings frame).placement.along right.origin := by
  obtain ⟨first, firstFrame, foundFirst, firstPlace, rfl⟩ := Measure.childPlacement foundLeft
  obtain ⟨second, secondFrame, foundSecond, secondPlace, rfl⟩ := Measure.childPlacement foundRight
  have firstExtent := Measure.extents_getElem? foundFirst
  have secondExtent := Measure.extents_getElem? foundSecond
  rw [partFrames_series isSeries, firstExtent, Option.map_some, Option.some_inj] at firstPlace
  rw [partFrames_series isSeries, secondExtent, Option.map_some, Option.some_inj] at secondPlace
  subst firstPlace secondPlace
  have firstStraight := straight first (List.mem_of_getElem? foundFirst)
  have secondStraight := straight second (List.mem_of_getElem? foundSecond)
  rw [Measure.place_placement]
  constructor
  · rw [placement_rightEnd, placement_leftEnd, Frame.point_shifted, Frame.point_shifted,
      memberCorner_rightPort firstStraight _ firstExtent, memberCorner_leftPort secondStraight]
  · have width : (measure.extents.map Extent.width)[index]? = some first.extent.width := by
      simp [firstExtent]
    rw [placement_bottomRight, placement_origin, Frame.point_shifted,
      Placement.along_point _ frame placement_rotated, Frame.shifted,
      Placement.along_point _ frame placement_rotated]
    simp [memberCorner, startOf_succ width]

theorem corner_add_leftPort {part : Extent Rat} (straight : part.IsStraight)
    (corner : Point Rat) : corner + part.leftPort = BranchSlot.leftPort ⟨part, corner⟩ := by
  have left : part.leftPort.x = 0 := straight.left
  apply Point.eq_of_coordinates <;> simp [BranchSlot.leftPort, left]

theorem corner_add_rightPort {part : Extent Rat} (straight : part.IsStraight)
    (corner : Point Rat) : corner + part.rightPort = BranchSlot.rightPort ⟨part, corner⟩ := by
  apply Point.eq_of_coordinates <;> simp [BranchSlot.rightPort, straight.right]

section

variable {extent : Extent Rat} {parts : List (Extent Rat)} {branches : List Circuit}

theorem parallel_wires (isParallel : extent.circuit = .parallel branches) :
    (placement settings extent parts frame).wires =
      parallelWires frame extent (branchSlots settings extent.width Scalar.zero parts) := by
  rw [placement, isParallel]

theorem parallel_leftBus (isParallel : extent.circuit = .parallel branches) (height : Rat) :
    (placement settings extent parts frame).leftBus =
      some ((placement settings extent parts frame).along (frame.point ⟨0, height⟩)) := by
  rw [Placement.along_point _ frame placement_rotated]
  rw [placement, isParallel]
  cases rotated : frame.rotated <;>
    simp [alongSignal, Placement.along, barePlacement, rotated, Frame.point, Frame.offset,
      Point.transposed]

theorem parallel_rightBus (isParallel : extent.circuit = .parallel branches) (height : Rat) :
    (placement settings extent parts frame).rightBus =
      some ((placement settings extent parts frame).along (frame.point ⟨extent.width, height⟩)) := by
  rw [Placement.along_point _ frame placement_rotated]
  rw [placement, isParallel]
  cases rotated : frame.rotated <;>
    simp [alongSignal, Placement.along, barePlacement, rotated, Frame.point, Frame.offset,
      Point.transposed]

end

section

variable {extent : Extent Rat} {parts : List (Extent Rat)} {links : List (Link Circuit)}

theorem twoport_rail (isTwoport : extent.circuit = .twoport links) (upright : frame.rotated = false)
    (x : Rat) :
    (placement settings extent parts frame).rail =
      some (frame.point ⟨x, (twoportLines settings ((links.map Link.kind).zip parts)).rail⟩).y := by
  rw [placement, isTwoport]
  simp [Frame.point, Frame.offset, upright, Circuit.linkExtents, Circuit.linkKinds]

end

section

variable {links : List (Link Circuit)} {parts : List (Measure Rat)}

/-- The targets of the links of a placed twoport. -/
theorem network_target {kind : LinkKind} {target : Placement Rat}
    (member : (kind, target) ∈ (links.map Link.kind).zip
      (((Measure.network settings links parts).place settings frame).children.map
        Layout.placement)) :
    ∃ index part, part ∈ parts ∧
      ((links.map Link.kind).zip (parts.map Measure.extent))[index]? = some (kind, part.extent) ∧
      target = placement settings part.extent part.extents
        ((slotAt settings ((links.map Link.kind).zip (parts.map Measure.extent)) index
          (kind, part.extent)).targetFrame frame
            (twoportLines settings ((links.map Link.kind).zip (parts.map Measure.extent)))) := by
  obtain ⟨index, found⟩ := List.mem_iff_getElem?.mp member
  rw [List.getElem?_zip_eq_some] at found
  obtain ⟨foundKind, foundTarget⟩ := found
  obtain ⟨part, partFrame, foundPart, partPlace, targetPlace⟩ := Measure.childPlacement foundTarget
  have foundLink : ((links.map Link.kind).zip (parts.map Measure.extent))[index]? =
      some (kind, part.extent) :=
    List.getElem?_zip_eq_some.mpr ⟨foundKind, Measure.extents_getElem? foundPart⟩
  refine ⟨index, part, List.mem_of_getElem? foundPart, foundLink, ?_⟩
  have isTwoport : (Measure.network settings links parts).extent.circuit = .twoport links := rfl
  rw [partFrames_twoport isTwoport] at partPlace
  change ((links.map Link.kind).zip (parts.map Measure.extent))[index]?.map _ = _ at partPlace
  rw [foundLink, Option.map_some, Option.some_inj] at partPlace
  subst partPlace
  exact targetPlace

/-- The targets of series links have their ports on the signal line. -/
theorem seriesTarget_level (straight : ∀ part ∈ parts, part.extent.IsStraight)
    (upright : frame.rotated = false) {target : Placement Rat}
    (member : (.series, target) ∈ (links.map Link.kind).zip
      (((Measure.network settings links parts).place settings frame).children.map
        Layout.placement)) :
    let network := ((Measure.network settings links parts).place settings frame).placement
    target.leftEnd.y = network.leftEnd.y ∧ target.rightEnd.y = network.leftEnd.y := by
  obtain ⟨index, part, isPart, found, rfl⟩ := network_target member
  have left : part.extent.leftPort.x = 0 := (straight part isPart).left
  dsimp only
  rw [Measure.place_placement, placement_leftEnd, placement_rightEnd, placement_leftEnd,
    (straight part isPart).right]
  rw [LinkSlot.targetFrame_series rfl, LinkSlot.targetFrame_series rfl]
  simp [Frame.point, Frame.offset, upright, slotAt, Measure.network, Measure.extent,
    twoportExtent]

end

/-! ## All nodes -/

end Alignment

end Schematic
