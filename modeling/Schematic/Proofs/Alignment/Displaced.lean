import Schematic.Proofs.Alignment.Accepted
import Schematic.Proofs.Connectivity.Drawn
import Schematic.Proofs.Layout.Editing

/-!
# Displaced parts

In the layout of a document every part touches what it is connected to.  A part that
is moved on its own no longer does: a member leaves its line or its neighbour, a
branch leaves one of its buses, and a series target leaves the signal line.  So the
check names the part.  For branches this needs some room: a moved branch may come to
rest on a bus, but not on both of them, and it does not come near the stubs of other
branches.
-/

namespace Schematic

namespace Placement

variable (placement group : Placement Rat) (offset : Point Rat)

theorem along_add (first second : Point Rat) :
    group.along (first + second) = group.along first + group.along second := by
  cases rotated : group.rotated <;> simp [along, rotated]

theorem across_add (first second : Point Rat) :
    group.across (first + second) = group.across first + group.across second := by
  cases rotated : group.rotated <;> simp [across, rotated]

theorem leftEnd_displaced :
    (placement.displaced offset).leftEnd = placement.leftEnd + offset := by
  apply Point.eq_of_coordinates <;> simp [leftEnd, displaced, add_right_comm]

theorem rightEnd_displaced :
    (placement.displaced offset).rightEnd = placement.rightEnd + offset := by
  apply Point.eq_of_coordinates <;> simp [rightEnd, displaced, add_right_comm]

theorem bottomRight_displaced :
    (placement.displaced offset).bottomRight = placement.bottomRight + offset := by
  apply Point.eq_of_coordinates <;> simp [bottomRight, displaced, add_right_comm]

end Placement

namespace Alignment

/-- A finding for which a layout is refused, and which names the part at `index`. -/
def Finding.Blames {α : Type} (finding : Finding α) (index : Nat) : Prop :=
  finding.kind.severity = .error ∧ ∃ name, (name, index) ∈ finding.indices

/-! ## Members of series groups -/

section

variable {group : Placement Rat} {members : List (Placement Rat)} {left right : Placement Rat}

theorem mem_checkSeries {index : Nat} (foundLeft : members[index]? = some left)
    (foundRight : members[index + 1]? = some right) (position : Nat) {finding : Finding Rat}
    (isFinding : finding ∈ checkNeighbours group (position + index) left right) :
    finding ∈ checkSeries group position members := by
  induction members generalizing position index with
  | nil => cases foundLeft
  | cons first rest ih =>
      obtain ⟨second, others, rfl⟩ : ∃ second others, rest = second :: others := by
        cases rest with
        | nil => cases foundRight
        | cons second others => exact ⟨second, others, rfl⟩
      rw [checkSeries, List.mem_append]
      cases index with
      | zero =>
          cases foundLeft
          cases foundRight
          exact .inl isFinding
      | succ index =>
          right
          refine ih foundLeft foundRight (position + 1) ?_
          rwa [Nat.add_right_comm]

/-- Neighbours that do not meet are both blamed. -/
theorem exists_blame_of_neighbours (index : Nat)
    (apart : Scalar.tolerance < |group.across right.leftEnd - group.across left.rightEnd| ∨
      Scalar.tolerance < |group.along right.origin - group.along left.bottomRight|) :
    ∃ finding ∈ checkNeighbours group index left right,
      finding.Blames index ∧ finding.Blames (index + 1) := by
  simp only [checkNeighbours, List.mem_append]
  rcases apart with offLine | gap
  · refine ⟨.memberOffLine index left.rightEnd right.leftEnd, .inl ?_, ?_⟩
    · simp [Scalar.same_eq_false offLine]
    · simp [Finding.Blames, Finding.kind, Finding.indices, FindingKind.severity]
  · refine ⟨.memberGap index (group.along left.bottomRight) (group.along right.origin),
      .inr ?_, ?_⟩
    · simp [Scalar.same_eq_false gap]
    · simp [Finding.Blames, Finding.kind, Finding.indices, FindingKind.severity]

variable {part : Placement Rat} {offset : Point Rat}

/-- A displaced member of a row of parts that meet is blamed: with the next member, or with
the one before it if it is the last one. -/
theorem exists_blame_of_series {index : Nat} (foundPart : members[index]? = some part)
    (two : 2 ≤ members.length)
    (meet : ∀ (index : Nat) left right, members[index]? = some left →
      members[index + 1]? = some right →
        left.rightEnd = right.leftEnd ∧ group.along left.bottomRight = group.along right.origin)
    (noticeable : Scalar.tolerance < |offset.x| ∨ Scalar.tolerance < |offset.y|) :
    ∃ finding ∈ checkSeries group 0 (members.set index (part.displaced offset)),
      finding.Blames index := by
  have apart : Scalar.tolerance < |group.across offset| ∨
      Scalar.tolerance < |group.along offset| := by
    cases rotated : group.rotated <;>
      simpa [Placement.across, Placement.along, rotated, or_comm] using noticeable
  have inRange := (List.getElem?_eq_some_iff.mp foundPart).1
  have foundMoved : (members.set index (part.displaced offset))[index]? =
      some (part.displaced offset) := List.getElem?_set_self inRange
  -- The last member has no next one, so it is found together with the one before it.
  by_cases hasNext : index + 1 < members.length
  · have foundRight := List.getElem?_eq_getElem hasNext
    generalize members[index + 1] = right at foundRight
    obtain ⟨ports, ends⟩ := meet index part right foundPart foundRight
    obtain ⟨finding, isFinding, blames, -⟩ :=
      @exists_blame_of_neighbours group (part.displaced offset) right index (by
        rw [part.rightEnd_displaced, part.bottomRight_displaced, group.across_add,
          group.along_add, ports, ends, sub_add_cancel_left, sub_add_cancel_left, abs_neg, abs_neg]
        exact apart)
    refine ⟨finding, mem_checkSeries foundMoved ?_ 0 (by rwa [Nat.zero_add]), blames⟩
    rw [List.getElem?_set_ne (by omega), foundRight]
  · obtain ⟨before, rfl⟩ : ∃ before, index = before + 1 := ⟨index - 1, by omega⟩
    have foundLeft := List.getElem?_eq_getElem (Nat.lt_of_succ_lt inRange)
    generalize members[before] = left at foundLeft
    obtain ⟨ports, ends⟩ := meet before left part foundLeft foundPart
    obtain ⟨finding, isFinding, -, blames⟩ :=
      @exists_blame_of_neighbours group left (part.displaced offset) before (by
        have start : (part.displaced offset).origin = part.origin + offset := rfl
        rw [part.leftEnd_displaced, start, group.across_add, group.along_add, ports, ends,
          add_sub_cancel_left, add_sub_cancel_left]
        exact apart)
    refine ⟨finding, mem_checkSeries ?_ foundMoved 0 (by rwa [Nat.zero_add]), blames⟩
    rw [List.getElem?_set_ne (by omega), foundLeft]

end

/-! ## Targets of series links -/

section

variable {network target part : Placement Rat} {links : List (LinkKind × Placement Rat)}

theorem mem_checkLinks {index : Nat} (found : links[index]? = some (.series, target))
    (position : Nat) {finding : Finding Rat}
    (isFinding : finding ∈ checkSeriesLink network.leftEnd.y (position + index) target) :
    finding ∈ checkLinks network position links := by
  induction links generalizing position index with
  | nil => cases found
  | cons link rest ih =>
      cases index with
      | zero =>
          cases found
          rw [checkLinks, List.mem_append]
          exact .inl isFinding
      | succ index =>
          have later := ih found (position + 1) (by rwa [Nat.add_right_comm])
          obtain ⟨kind, other⟩ := link
          cases kind with
          | series =>
              rw [checkLinks, List.mem_append]
              exact .inr later
          | shunt =>
              rw [checkLinks, List.mem_append]
              exact .inr later

/-- A target that is raised or lowered from the signal line is blamed. -/
theorem exists_blame_of_link {offset : Point Rat} (level : part.leftEnd.y = network.leftEnd.y)
    (noticeable : Scalar.tolerance < |offset.y|) (index : Nat) :
    ∃ finding ∈ checkSeriesLink network.leftEnd.y index (part.displaced offset),
      finding.Blames index := by
  have height : (part.displaced offset).leftEnd.y = network.leftEnd.y + offset.y := by
    rw [part.leftEnd_displaced, Point.add_y, level]
  have off : Scalar.same (network.leftEnd.y + offset.y) network.leftEnd.y = false := by
    apply Scalar.same_eq_false
    rwa [sub_add_cancel_left, abs_neg]
  refine ⟨.seriesOffSignal index (network.leftEnd.y + offset.y) network.leftEnd.y, ?_, ?_⟩
  · simp [checkSeriesLink, height, off]
  · simp [Finding.Blames, Finding.kind, Finding.indices, FindingKind.severity]

end

/-! ## Branches of parallel groups -/

section

variable {group : Placement Rat} {branches : List (Placement Rat)} {branch : Placement Rat}

/-- A branch that does not reach both buses is blamed. -/
theorem exists_blame_of_branch {index : Nat} (found : branches[index]? = some branch)
    (off : reachesBus group branch.leftEnd group.leftBus = false ∨
      reachesBus group branch.rightEnd group.rightBus = false) (position : Nat) :
    ∃ finding ∈ checkBranches group position branches, finding.Blames (position + index) := by
  induction branches generalizing position index with
  | nil => cases found
  | cons first rest ih =>
      simp only [checkBranches, List.mem_append]
      cases index with
      | zero =>
          cases found
          rcases off with left | right
          · refine ⟨.branchOffBus .left position branch.leftEnd group.leftBus, .inl (.inl ?_), ?_⟩
            · simp [checkBranchEnd, left]
            · simp [Finding.Blames, Finding.kind, Finding.indices, FindingKind.severity]
          · refine ⟨.branchOffBus .right position branch.rightEnd group.rightBus,
              .inl (.inr ?_), ?_⟩
            · simp [checkBranchEnd, right]
            · simp [Finding.Blames, Finding.kind, Finding.indices, FindingKind.severity]
      | succ index =>
          obtain ⟨finding, isFinding, blames⟩ := ih found (position + 1)
          rw [Nat.add_right_comm] at blames
          exact ⟨finding, .inr isFinding, blames⟩

end

section

variable {settings : LayoutSettings Rat} {extent : Extent Rat} {parts : List (Extent Rat)}
  {branches : List Circuit} {frame : Frame Rat}

/-- The slots of the branches of a group. -/
abbrev groupSlots (settings : LayoutSettings Rat) (extent : Extent Rat)
    (parts : List (Extent Rat)) : List (BranchSlot Rat) :=
  branchSlots settings extent.width Scalar.zero parts

/-- A wire leads from a port straight to a bus, in the frame of the group. -/
structure LeadsTo (port : Point Rat) (bus : Rat) (near far : Point Rat) : Prop where
  x : |port.x - near.x| ≤ Scalar.tolerance
  y : |port.y - near.y| ≤ Scalar.tolerance
  bus : |bus - far.x| ≤ Scalar.tolerance
  level : |port.y - far.y| ≤ Scalar.tolerance

theorem leadsTo_of_isStub {group : Placement Rat} (sameTurn : group.rotated = frame.rotated)
    {port start finish : Point Rat} {bus height : Rat}
    (stub : isStub group (frame.point port) (group.along (frame.point ⟨bus, height⟩))
      (frame.point start) (frame.point finish) = true) : LeadsTo port bus start finish := by
  simp only [isStub, group.along_point frame sameTurn, group.across_point frame sameTurn,
    Scalar.same_add_left, Bool.and_eq_true, Scalar.same_iff] at stub
  obtain ⟨⟨⟨sameX, sameY⟩, onBus⟩, level⟩ := stub
  have near : |port.x - start.x| ≤ Scalar.tolerance ∧ |port.y - start.y| ≤ Scalar.tolerance := by
    cases rotated : frame.rotated <;>
      simp only [Frame.point, Frame.offset, rotated, Bool.false_eq_true, if_false, if_true,
        Point.add_x, Point.add_y, Point.transposed, add_sub_add_left_eq_sub] at sameX sameY
    · exact ⟨sameX, sameY⟩
    · exact ⟨sameY, sameX⟩
  exact ⟨near.1, near.2, onBus, level⟩

/-- A port that reaches a bus is on it, or a wire of the group leads from it to the bus. -/
theorem exists_lead_of_reachesBus (isParallel : extent.circuit = .parallel branches)
    {port : Point Rat} {bus height : Rat}
    (reaches : reachesBus (placement settings extent parts frame) (frame.point port)
      (some ((placement settings extent parts frame).along (frame.point ⟨bus, height⟩))) = true) :
    |bus - port.x| ≤ Scalar.tolerance ∨
      ∃ side wire, GroupWire extent (groupSlots settings extent parts) side wire ∧
        (LeadsTo port bus wire.start wire.finish ∨ LeadsTo port bus wire.finish wire.start) := by
  have sameTurn := @placement_rotated settings extent parts frame
  rw [reachesBus, Bool.or_eq_true, Placement.along_point _ frame sameTurn,
    Placement.along_point _ frame sameTurn, Scalar.same_add_left, Scalar.same_iff,
    List.any_eq_true] at reaches
  refine reaches.imp_right ?_
  rintro ⟨wire, isWire, isStub⟩
  rw [parallel_wires isParallel] at isWire
  obtain ⟨side, inner, isGroupWire, rfl⟩ := mem_parallelWires isWire
  refine ⟨side, inner, isGroupWire, ?_⟩
  rw [Bool.or_eq_true, ← Placement.along_point _ frame sameTurn ⟨bus, height⟩] at isStub
  exact isStub.imp (leadsTo_of_isStub sameTurn) (leadsTo_of_isStub sameTurn)

end

/-! ### Room around branches -/

section

variable {settings : LayoutSettings Rat} {extent : Extent Rat} {parts : List (Extent Rat)}
  {slot other : BranchSlot Rat} {move : Rat}

/-- A parallel group of branches with some room, each of which fits between the buses. -/
structure HasRoom (settings : LayoutSettings Rat) (extent : Extent Rat)
    (parts : List (Extent Rat)) : Prop where
  nonnegative : settings.IsNonnegative
  roomy : ∀ part ∈ parts, part.IsRoomy
  fits : ∀ part ∈ parts, part.width ≤ extent.width

variable (room : HasRoom settings extent parts)
  (isSlot : slot ∈ groupSlots settings extent parts)
include room

/-- The ports of different branches are at different heights. -/
theorem HasRoom.eq_of_level (isSlot : slot ∈ groupSlots settings extent parts)
    (isOther : other ∈ groupSlots settings extent parts)
    (level : |slot.leftPort.y - other.leftPort.y| ≤ Scalar.tolerance) : slot = other := by
  have centred := fun part isPart => (room.roomy part isPart).isCentred
  have below : ∀ {low high : Nat} {lower upper}, parts[low]? = some lower →
      parts[high]? = some upper → low < high →
        (BranchSlot.leftPort ⟨lower, branchCorner settings extent.width parts low lower⟩).y + 20 ≤
          (BranchSlot.leftPort ⟨upper, branchCorner settings extent.width parts high upper⟩).y := by
    intro low high lower upper foundLower foundUpper before
    have isLower := List.mem_of_getElem? foundLower
    have isUpper := List.mem_of_getElem? foundUpper
    have gap := (startOf_branch room.nonnegative centred foundLower).2.1 high before
    rw [(branchSlot_ports (centred lower isLower) _).1,
      (branchSlot_ports (centred upper isUpper) _).1]
    simp only [branchCorner]
    linarith [(room.roomy lower isLower).high, (room.roomy upper isUpper).high]
  obtain ⟨index, branch, found, rfl⟩ := mem_branchSlots.mp isSlot
  obtain ⟨otherIndex, otherBranch, otherFound, rfl⟩ := mem_branchSlots.mp isOther
  obtain ⟨low, high⟩ := abs_le.mp level
  have small := Scalar.tolerance_bounds.2
  rcases lt_trichotomy index otherIndex with before | rfl | after
  · linarith [below found otherFound before]
  · rw [found] at otherFound
    cases otherFound
    rfl
  · linarith [below otherFound found after]

include isSlot

/-- A branch is between the buses, with its ports apart and at one height. -/
theorem HasRoom.between :
    0 ≤ slot.leftPort.x ∧ slot.leftPort.x + 60 ≤ slot.rightPort.x ∧
      slot.rightPort.x ≤ extent.width ∧ slot.rightPort.y = slot.leftPort.y := by
  obtain ⟨index, branch, found, rfl⟩ := mem_branchSlots.mp isSlot
  have isBranch := List.mem_of_getElem? found
  have roomy := room.roomy branch isBranch
  obtain ⟨start, finish⟩ := branchIndent_bounds settings.branchAlignment (room.fits branch isBranch)
  obtain ⟨left, right⟩ := branchSlot_ports roomy.isCentred
    (branchCorner settings extent.width parts index branch)
  rw [left, right]
  simp only [branchCorner]
  exact ⟨start, by linarith [roomy.wide], finish, trivial⟩

/-- Where a moved branch is connected to the left bus, its left port is on the bus. -/
theorem HasRoom.onLeftBus (noticeable : Scalar.tolerance < |move|) {side : Side} {wire : Wire Rat}
    (isWire : GroupWire extent (groupSlots settings extent parts) side wire)
    (leads : LeadsTo ⟨slot.leftPort.x + move, slot.leftPort.y⟩ 0 wire.start wire.finish ∨
      LeadsTo ⟨slot.leftPort.x + move, slot.leftPort.y⟩ 0 wire.finish wire.start) :
    |slot.leftPort.x + move| ≤ Scalar.tolerance := by
  have small := Scalar.tolerance_bounds.2
  cases isWire with
  | leftStub isOther =>
      rcases leads with fromBus | fromPort
      · simpa using fromBus.x
      · obtain rfl := room.eq_of_level isSlot isOther fromPort.y
        have stays := fromPort.x
        rw [add_sub_cancel_left] at stays
        exact absurd stays (not_le.mpr noticeable)
  | rightStub isOther =>
      obtain ⟨left, wide, right, -⟩ := room.between isOther
      rcases leads with fromPort | fromBus
      · linarith [(abs_le.mp fromPort.bus).1]
      · linarith [(abs_le.mp fromBus.bus).1]
  | leftBus => rcases leads with up | down <;> [simpa using up.x; simpa using down.x]
  | rightBus =>
      obtain ⟨left, wide, right, -⟩ := room.between isSlot
      rcases leads with up | down
      · linarith [(abs_le.mp up.bus).1]
      · linarith [(abs_le.mp down.bus).1]

/-- Where a moved branch is connected to the right bus, its right port is on the bus. -/
theorem HasRoom.onRightBus (noticeable : Scalar.tolerance < |move|) {side : Side}
    {wire : Wire Rat} (isWire : GroupWire extent (groupSlots settings extent parts) side wire)
    (leads : LeadsTo ⟨slot.rightPort.x + move, slot.rightPort.y⟩ extent.width wire.start
        wire.finish ∨
      LeadsTo ⟨slot.rightPort.x + move, slot.rightPort.y⟩ extent.width wire.finish wire.start) :
    |slot.rightPort.x + move - extent.width| ≤ Scalar.tolerance := by
  have small := Scalar.tolerance_bounds.2
  obtain ⟨left, wide, right, level⟩ := room.between isSlot
  cases isWire with
  | leftStub isOther =>
      obtain ⟨otherLeft, otherWide, otherRight, -⟩ := room.between isOther
      rcases leads with fromBus | fromPort
      · linarith [(abs_le.mp fromBus.bus).2]
      · linarith [(abs_le.mp fromPort.bus).2]
  | rightStub isOther =>
      rcases leads with fromPort | fromBus
      · have sameLevel := fromPort.y
        rw [(room.between isOther).2.2.2, level] at sameLevel
        obtain rfl := room.eq_of_level isSlot isOther sameLevel
        have stays := fromPort.x
        rw [add_sub_cancel_left] at stays
        exact absurd stays (not_le.mpr noticeable)
      · exact fromBus.x
  | leftBus =>
      rcases leads with up | down
      · linarith [(abs_le.mp up.bus).2]
      · linarith [(abs_le.mp down.bus).2]
  | rightBus => rcases leads with up | down <;> [exact up.x; exact down.x]

/-- A moved branch is not on both buses. -/
theorem HasRoom.not_onBoth (noticeable : Scalar.tolerance < |move|)
    (onLeft : |slot.leftPort.x + move| ≤ Scalar.tolerance)
    (onRight : |slot.rightPort.x + move - extent.width| ≤ Scalar.tolerance) : False := by
  obtain ⟨index, branch, found, rfl⟩ := mem_branchSlots.mp isSlot
  have isBranch := List.mem_of_getElem? found
  obtain ⟨left, right⟩ := branchSlot_ports (room.roomy branch isBranch).isCentred
    (branchCorner settings extent.width parts index branch)
  rw [left] at onLeft
  rw [right] at onRight
  refine absurd noticeable (not_lt.mpr ?_)
  simp only [branchCorner] at onLeft onRight
  -- A branch at the left end would stay on the left bus; a centred one would have to come
  -- as far to the left as to the right.
  cases alignment : settings.branchAlignment <;>
    simp only [branchIndent, alignment, Scalar.zero_eq, Scalar.half_eq] at onLeft onRight <;>
    rw [abs_le] at * <;>
    constructor <;> linarith [onLeft.1, onLeft.2, onRight.1, onRight.2]

/-- A branch that is moved along the signal misses one of the buses. -/
theorem HasRoom.misses_bus {branches : List Circuit} (frame : Frame Rat)
    (isParallel : extent.circuit = .parallel branches) (noticeable : Scalar.tolerance < |move|) :
    let group := placement settings extent parts frame
    reachesBus group (frame.point ⟨slot.leftPort.x + move, slot.leftPort.y⟩) group.leftBus = false ∨
      reachesBus group (frame.point ⟨slot.rightPort.x + move, slot.rightPort.y⟩) group.rightBus =
        false := by
  by_contra both
  rw [not_or, Bool.not_eq_false, Bool.not_eq_false] at both
  obtain ⟨left, right⟩ := both
  rw [parallel_leftBus isParallel 0] at left
  rw [parallel_rightBus isParallel 0] at right
  have onLeft : |slot.leftPort.x + move| ≤ Scalar.tolerance := by
    rcases exists_lead_of_reachesBus isParallel left with onBus | ⟨side, wire, isWire, leads⟩
    · rwa [abs_sub_comm, sub_zero] at onBus
    · exact room.onLeftBus isSlot noticeable isWire leads
  have onRight : |slot.rightPort.x + move - extent.width| ≤ Scalar.tolerance := by
    rcases exists_lead_of_reachesBus isParallel right with onBus | ⟨side, wire, isWire, leads⟩
    · rwa [abs_sub_comm] at onBus
    · exact room.onRightBus isSlot noticeable isWire leads
  exact room.not_onBoth isSlot noticeable onLeft onRight

end

end Alignment

end Schematic
