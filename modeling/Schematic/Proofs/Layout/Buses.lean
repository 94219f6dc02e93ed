import Schematic.Proofs.Alignment.Accepted
import Schematic.Proofs.Connectivity.Ordered
import Schematic.Proofs.Layout.Centred
import Schematic.Proofs.Layout.Spans

/-!
# Buses

A parallel group draws a bus on each side and stubs to the branches that are too narrow
for it.  The buses are split at their taps, so that a wire ends wherever something is
connected.  This holds for branches of all sizes with ports at any heights, also when
they overlap, and in both orientations of the group.
-/

namespace Schematic

namespace Placement

/-- The point at given distances along and across the signal of a placed circuit. -/
def spot (placement : Placement Rat) (along across : Rat) : Point Rat :=
  if placement.rotated then ⟨across, along⟩ else ⟨along, across⟩

variable (placement : Placement Rat)

theorem along_spot (along across : Rat) :
    placement.along (placement.spot along across) = along := by
  cases rotated : placement.rotated <;> simp [spot, Placement.along, rotated]

theorem spot_along_across (point : Point Rat) :
    placement.spot (placement.along point) (placement.across point) = point := by
  cases rotated : placement.rotated <;> simp [spot, along, across, rotated]

/-- Straight across from a point there is nothing but the point itself if it is there. -/
theorem spot_eq_iff {along : Rat} {point : Point Rat} :
    placement.spot along (placement.across point) = point ↔ placement.along point = along := by
  constructor
  · intro same
    rw [← same, along_spot]
  · rintro rfl
    exact placement.spot_along_across point

/-- Where a wire starts and where it ends across the signal. -/
def reach (placement : Placement Rat) (wire : Wire Rat) : Rat × Rat :=
  (placement.across wire.start, placement.across wire.finish)

/-- The stubs of a branch with the given ends: straight across the group from each end
that is not on its bus. -/
def stubs (group : Placement Rat) (leftBus rightBus : Rat) (left right : Point Rat) :
    List (Wire Rat) :=
  (if group.along left = leftBus then [] else [⟨group.spot leftBus (group.across left), left⟩]) ++
    if group.along right = rightBus then []
    else [⟨right, group.spot rightBus (group.across right)⟩]

end Placement

/-- A bus with the given taps: its wires make one line from the least tap to the
greatest, and the line is cut at the taps and only there. -/
structure IsBus (group : Placement Rat) (bus : Rat) (taps : List Rat)
    (wires : List (Wire Rat)) : Prop where
  /-- All wires are on the line of the bus. -/
  onLine : ∀ wire ∈ wires, ∀ stop ∈ wire.ends, group.along stop = bus
  /-- The wires follow one another from the least tap to the greatest. -/
  fills : ∃ low ∈ taps, ∃ high ∈ taps, (∀ tap ∈ taps, low ≤ tap ∧ tap ≤ high) ∧
    Fills (wires.map group.reach) low high
  /-- No wire is without extent. -/
  extended : ∀ wire ∈ wires, group.across wire.start < group.across wire.finish
  /-- A wire ends at every tap, unless there is one place only. -/
  ended : ∀ tap ∈ taps, (∃ other ∈ taps, other ≠ tap) →
    ∃ wire ∈ wires, ∃ stop ∈ wire.ends, group.across stop = tap
  /-- No tap is strictly inside of a wire. -/
  clear : ∀ wire ∈ wires, ∀ tap ∈ taps,
    tap ≤ group.across wire.start ∨ group.across wire.finish ≤ tap

/-- The wires of a parallel group are one stub for each end of a branch that is not on its
bus, and two buses that are split at the ports of the group and of its branches. -/
def Layout.HasSplitBuses (layout : Layout Rat) : Prop :=
  let group := layout.placement
  let branches := layout.children.map Layout.placement
  ∃ leftBus rightBus leftWires rightWires,
    group.leftBus = some leftBus ∧ group.rightBus = some rightBus ∧ leftBus < rightBus ∧
    group.along group.leftEnd = leftBus ∧ group.along group.rightEnd = rightBus ∧
    group.wires = (branches.flatMap fun branch =>
      group.stubs leftBus rightBus branch.leftEnd branch.rightEnd) ++ leftWires ++ rightWires ∧
    IsBus group leftBus ((group.leftEnd :: branches.map Placement.leftEnd).map group.across)
      leftWires ∧
    IsBus group rightBus ((group.rightEnd :: branches.map Placement.rightEnd).map group.across)
      rightWires

/-! ## Taps in order -/

/-- Taps are put in order as the points of the bus are. -/
theorem map_insertTap (x tap : Rat) (taps : List Rat) :
    (insertTap tap taps).map (Point.mk x) =
      Point.insertOrdered ⟨x, tap⟩ (taps.map (Point.mk x)) := by
  induction taps with
  | nil => rfl
  | cons first rest ih =>
      have same : (Point.mk x tap).same ⟨x, first⟩ = (tap == first) := by simp [Point.same]
      have before : (Point.mk x tap).before ⟨x, first⟩ = decide (tap < first) := by
        simp [Point.before]
      rw [insertTap, List.map_cons, Point.insertOrdered, same, before]
      split
      · rfl
      · simp only [decide_eq_true_eq]
        split
        · rfl
        · rw [List.map_cons, ih]

theorem ascending_busTaps (x port : Rat) (ports : List Rat) :
    Point.Ascending ((busTaps port ports).map (Point.mk x)) := by
  have folded : ∀ taps : List Rat, Point.Ascending (taps.map (Point.mk x)) →
      Point.Ascending ((ports.foldl (fun taps tap => insertTap tap taps) taps).map
        (Point.mk x)) := by
    induction ports with
    | nil => exact fun taps ascends => ascends
    | cons tap rest ih =>
        intro taps ascends
        apply ih
        rw [map_insertTap]
        exact Point.ascending_insertOrdered ascends _
  exact folded [port] (List.pairwise_singleton _ _)

section

variable {frame : Frame Rat} {group : Placement Rat} (sameTurn : group.rotated = frame.rotated)

theorem busWires_points (x : Rat) (taps : List Rat) :
    busWires frame x taps = (Network.neighbours (taps.map (Point.mk x))).flatMap fun pair =>
      frame.connect pair.1 pair.2 := by
  induction taps with
  | nil => rfl
  | cons top rest ih =>
      cases rest with
      | nil => rfl
      | cons bottom rest =>
          rw [busWires, ih]
          simp only [List.map_cons, Network.neighbours, List.flatMap_cons]

/-- Between points in order no wire is left out. -/
theorem wires_of_ascending {points : List (Point Rat)} (ascends : Point.Ascending points) :
    ((Network.neighbours points).flatMap fun pair => frame.connect pair.1 pair.2) =
      (Network.neighbours points).map fun pair => frame.wire pair.1 pair.2 := by
  rw [List.map_eq_flatMap]
  apply List.flatMap_congr
  intro pair isPair
  obtain ⟨-, -, isBefore, -⟩ := (Network.mem_neighbours_iff ascends).mp isPair
  have different : ¬pair.1.same pair.2 = true := by
    rw [Point.same_iff]
    intro same
    rw [same] at isBefore
    exact Point.not_before_self _ isBefore
  rw [Frame.connect, if_neg different]

/-! ## One bus -/

/-- On a vertical line, a point is before the points that are further down. -/
theorem Point.before_iff_of_column {x : Rat} {first second : Point Rat} (isFirst : first.x = x)
    (isSecond : second.x = x) : first.Before second ↔ first.y < second.y := by
  rw [Point.Before, Point.before_iff, isFirst, isSecond]
  simp

include sameTurn in
/-- The wires between points of one line, in order, make a bus with taps at the points. -/
theorem isBus_of_ascending {x : Rat} {points : List (Point Rat)} (notNone : points ≠ [])
    (ascends : Point.Ascending points) (column : ∀ point ∈ points, point.x = x)
    {taps : List Rat}
    (isTap : ∀ tap, tap ∈ taps ↔ ∃ point ∈ points, group.across (frame.point point) = tap) :
    IsBus group (group.along frame.origin + x) taps
      ((Network.neighbours points).map fun pair => frame.wire pair.1 pair.2) := by
  have across := group.across_point frame sameTurn
  have lower : ∀ {first second : Point Rat}, first ∈ points → second ∈ points →
      (first.Before second ↔
        group.across (frame.point first) < group.across (frame.point second)) := by
    intro first second isFirst isSecond
    rw [Point.before_iff_of_column (column first isFirst) (column second isSecond), across, across,
      add_lt_add_iff_left]
  refine ⟨?_, ?_, ?_, ?_, ?_⟩
  · intro wire isWire stop isEnd
    obtain ⟨pair, isPair, rfl⟩ := List.mem_map.mp isWire
    obtain ⟨isFirst, isSecond⟩ := Network.mem_of_mem_neighbours isPair
    simp only [Frame.wire, Wire.ends, List.mem_cons, List.not_mem_nil, or_false] at isEnd
    rcases isEnd with rfl | rfl
    · rw [group.along_point frame sameTurn, column _ isFirst]
    · rw [group.along_point frame sameTurn, column _ isSecond]
  · obtain ⟨first, rest, rfl⟩ := List.exists_cons_of_ne_nil notNone
    have ordered : (first :: rest).Pairwise fun one other =>
        group.across (frame.point one) ≤ group.across (frame.point other) :=
      ascends.imp_of_mem fun isOne isOther isBefore => ((lower isOne isOther).mp isBefore).le
    have isLast : rest.getLastD first ∈ first :: rest := List.getLastD_mem_cons
    refine ⟨_, (isTap _).mpr ⟨first, List.mem_cons_self, rfl⟩, _,
      (isTap _).mpr ⟨_, isLast, rfl⟩, ?_, ?_⟩
    · intro tap tapIs
      obtain ⟨point, isPoint, rfl⟩ := (isTap tap).mp tapIs
      exact between_ends ordered isPoint
    · rw [List.map_map]
      exact (spans_neighbours ordered).fills
  · intro wire isWire
    obtain ⟨pair, isPair, rfl⟩ := List.mem_map.mp isWire
    obtain ⟨isFirst, isSecond, isBefore, -⟩ := (Network.mem_neighbours_iff ascends).mp isPair
    exact (lower isFirst isSecond).mp isBefore
  · rintro tap tapIs ⟨other, otherIs, different⟩
    obtain ⟨point, isPoint, rfl⟩ := (isTap tap).mp tapIs
    obtain ⟨stranger, isStranger, rfl⟩ := (isTap other).mp otherIs
    rcases Point.before_or_eq_or_before point stranger with isBefore | rfl | isBehind
    · obtain ⟨next, isPair⟩ := Network.exists_next ascends isPoint isStranger isBefore
      exact ⟨_, List.mem_map_of_mem isPair, _, List.mem_cons_self, rfl⟩
    · exact absurd rfl different
    · obtain ⟨previous, isPair⟩ := Network.exists_previous ascends isStranger isPoint isBehind
      exact ⟨_, List.mem_map_of_mem isPair, _, List.mem_cons_of_mem _ List.mem_cons_self, rfl⟩
  · intro wire isWire tap tapIs
    obtain ⟨pair, isPair, rfl⟩ := List.mem_map.mp isWire
    obtain ⟨isFirst, isSecond, -, apart⟩ := (Network.mem_neighbours_iff ascends).mp isPair
    obtain ⟨point, isPoint, rfl⟩ := (isTap tap).mp tapIs
    by_contra inside
    rw [not_or, not_le, not_le] at inside
    exact apart point isPoint ⟨(lower isFirst isPoint).mpr inside.1,
      (lower isPoint isSecond).mpr inside.2⟩

include sameTurn in
/-- The wires between the taps of branches make a bus, with a tap at the port of the group. -/
theorem isBus_busWires (x height : Rat) {slots : List (BranchSlot Rat)}
    {port : BranchSlot Rat → Point Rat} {ends : List (Point Rat)}
    (same : ends = slots.map fun slot => frame.point (port slot)) :
    IsBus group (group.along frame.origin + x)
      ((frame.point ⟨x, height⟩ :: ends).map group.across)
      (busWires frame x (busTaps height (slots.map fun slot => (port slot).y))) := by
  subst same
  rw [busWires_points, wires_of_ascending (ascending_busTaps _ _ _)]
  refine isBus_of_ascending sameTurn ?_ (ascending_busTaps _ _ _) ?_ fun tap => ?_
  · exact List.ne_nil_of_mem (List.mem_map_of_mem (mem_busTaps.mpr (.inl rfl)))
  · exact List.forall_mem_map.mpr fun _ _ => rfl
  · -- The distance across the signal does not depend on where the bus is.
    simp [group.across_point frame sameTurn, mem_busTaps, or_and_right, exists_or, eq_comm]

/-! ## Stubs -/

include sameTurn in
theorem frame_point_eq_spot (x y : Rat) :
    frame.point ⟨x, y⟩ =
      group.spot (group.along frame.origin + x) (group.across (frame.point ⟨x, y⟩)) := by
  rw [group.across_point frame sameTurn]
  cases rotated : frame.rotated <;>
    simp [Placement.spot, Placement.along, Placement.across, sameTurn, rotated, Frame.point,
      Frame.offset, Point.transposed] <;> rfl

/-- What a group connects across its signal is a stub. -/
theorem between_spot_left (bus : Rat) (port : Point Rat) :
    Wire.between (group.spot bus (group.across port)) port =
      if group.along port = bus then [] else [⟨group.spot bus (group.across port), port⟩] := by
  simp only [Wire.between, Placement.spot_eq_iff]

theorem between_spot_right (bus : Rat) (port : Point Rat) :
    Wire.between port (group.spot bus (group.across port)) =
      if group.along port = bus then [] else [⟨port, group.spot bus (group.across port)⟩] := by
  simp only [Wire.between, eq_comm (a := port), Placement.spot_eq_iff]

include sameTurn in
theorem stubs_slot (width : Rat) (slot : BranchSlot Rat) :
    slot.stubs frame width =
      group.stubs (group.along frame.origin + 0) (group.along frame.origin + width)
        (frame.point slot.leftPort) (frame.point slot.rightPort) := by
  have level : ∀ (x : Rat) (port : Point Rat), frame.point ⟨x, port.y⟩ =
      group.spot (group.along frame.origin + x) (group.across (frame.point port)) := by
    intro x port
    rw [frame_point_eq_spot sameTurn, group.across_point frame sameTurn,
      group.across_point frame sameTurn]
  rw [BranchSlot.stubs, Placement.stubs, Frame.connect_eq, Frame.connect_eq, Scalar.zero_eq,
    level 0 slot.leftPort, level width slot.rightPort, between_spot_left, between_spot_right]

include sameTurn in
theorem flatMap_stubs {slots : List (BranchSlot Rat)} {branches : List (Placement Rat)}
    (ends : branches.map (fun branch => (branch.leftEnd, branch.rightEnd)) =
      slots.map fun slot => (frame.point slot.leftPort, frame.point slot.rightPort))
    (width : Rat) :
    branches.flatMap (fun branch => group.stubs (group.along frame.origin + 0)
        (group.along frame.origin + width) branch.leftEnd branch.rightEnd) =
      slots.flatMap (BranchSlot.stubs frame width) := by
  calc
    _ = (branches.map fun branch => (branch.leftEnd, branch.rightEnd)).flatMap fun pair =>
          group.stubs (group.along frame.origin + 0) (group.along frame.origin + width)
            pair.1 pair.2 := by
        rw [List.flatMap_map]
    _ = slots.flatMap fun slot => group.stubs (group.along frame.origin + 0)
          (group.along frame.origin + width) (frame.point slot.leftPort)
          (frame.point slot.rightPort) := by
        rw [ends, List.flatMap_map]
    _ = slots.flatMap (BranchSlot.stubs frame width) :=
        List.flatMap_congr fun slot _ => (stubs_slot sameTurn width slot).symm

end

/-! ## Parallel groups -/

/-- A box of positive width with its ports on its left and right edges, at any heights. -/
structure Extent.HasEdgePorts (extent : Extent Rat) : Prop where
  wide : 0 < extent.width
  left : extent.leftPort.x = 0
  right : extent.rightPort.x = extent.width

section

variable {settings : LayoutSettings Rat} {frame : Frame Rat} {parts : List (Measure Rat)}

theorem placeAll_ends (edged : ∀ part ∈ parts, part.extent.HasEdgePorts) (width y : Rat) :
    ((placeAll settings parts
      ((branchSlots settings width y (parts.map Measure.extent)).map fun slot =>
        ⟨frame.point slot.corner, frame.rotated⟩)).map Layout.placement).map (fun branch =>
          (branch.leftEnd, branch.rightEnd)) =
      (branchSlots settings width y (parts.map Measure.extent)).map fun slot =>
        (frame.point slot.leftPort, frame.point slot.rightPort) := by
  induction parts generalizing y with
  | nil => rfl
  | cons part rest ih =>
      obtain ⟨partEdged, restEdged⟩ := List.forall_mem_cons.mp edged
      simp only [List.map_cons, branchSlots, placeAll, ih restEdged]
      congr 1
      rw [Measure.place_placement, placement_leftEnd, placement_rightEnd]
      change ((frame.shifted _).point _, (frame.shifted _).point _) = _
      rw [Frame.point_shifted, Frame.point_shifted]
      congr 2
      · apply Point.eq_of_coordinates <;> simp [BranchSlot.leftPort, partEdged.left]
      · apply Point.eq_of_coordinates <;> simp [BranchSlot.rightPort, partEdged.right]

/-- The ends of the branches in the drawing are the ports of their slots. -/
theorem branch_ends {branches : List Circuit} {extent : Extent Rat}
    (isParallel : extent.circuit = .parallel branches)
    (edged : ∀ part ∈ parts, part.extent.HasEdgePorts) :
    (((Measure.node extent parts).place settings frame).children.map Layout.placement).map
        (fun branch => (branch.leftEnd, branch.rightEnd)) =
      (branchSlots settings extent.width Scalar.zero (parts.map Measure.extent)).map fun slot =>
        (frame.point slot.leftPort, frame.point slot.rightPort) := by
  have frames : partFrames settings extent (parts.map Measure.extent) frame =
      (branchSlots settings extent.width Scalar.zero (parts.map Measure.extent)).map fun slot =>
        ⟨frame.point slot.corner, frame.rotated⟩ := by
    rw [partFrames, isParallel]
  simp only [Measure.place, Layout.children, frames]
  exact placeAll_ends edged _ _

theorem parallelExtent_ports {circuit : Circuit} {extents : List (Extent Rat)}
    {extent : Extent Rat} (measured : parallelExtent settings circuit extents = .ok extent)
    (wide : ∀ branch ∈ extents, 0 < branch.width) :
    0 < extent.width ∧ extent.leftPort.x = 0 ∧
      extent.rightPort = ⟨extent.width, extent.leftPort.y⟩ := by
  cases extents with
  | nil => cases measured
  | cons first rest =>
      cases measured
      refine ⟨?_, rfl, rfl⟩
      obtain ⟨widest, isWidest, same⟩ := Scalar.exists_eq_largest Extent.width first rest
      exact same ▸ wide widest isWidest

/-- A placed parallel group has a bus on each side that is cut at the port of the group and
at the ports of its branches, and one stub for each end of a branch that is not on a bus. -/
theorem parallel_buses_split_at_taps (settings : LayoutSettings Rat) (frame : Frame Rat)
    {branches : List Circuit} {extent : Extent Rat} {parts : List (Measure Rat)}
    (measured : parallelExtent settings (.parallel branches) (parts.map Measure.extent) =
      .ok extent)
    (edged : ∀ part ∈ parts, part.extent.HasEdgePorts) :
    ((Measure.node extent parts).place settings frame).HasSplitBuses := by
  have isParallel := parallelExtent_circuit measured
  obtain ⟨wide, left, right⟩ := parallelExtent_ports measured
    (List.forall_mem_map.mpr fun part isPart => (edged part isPart).wide)
  let slots := branchSlots settings extent.width Scalar.zero (parts.map Measure.extent)
  let layout := (Measure.node extent parts).place settings frame
  have ends := @branch_ends settings frame parts branches extent isParallel edged
  have lefts : (layout.children.map Layout.placement).map Placement.leftEnd =
      slots.map fun slot => frame.point slot.leftPort := by
    simpa only [List.map_map, Function.comp_def] using congrArg (List.map Prod.fst) ends
  have rights : (layout.children.map Layout.placement).map Placement.rightEnd =
      slots.map fun slot => frame.point slot.rightPort := by
    simpa only [List.map_map, Function.comp_def] using congrArg (List.map Prod.snd) ends
  have group : layout.placement = placement settings extent (parts.map Measure.extent) frame :=
    Measure.place_placement _
  have sameTurn : layout.placement.rotated = frame.rotated := by rw [group, placement_rotated]
  have along := layout.placement.along_point frame sameTurn
  have leftEnd : layout.placement.leftEnd = frame.point ⟨0, extent.leftPort.y⟩ := by
    rw [group, placement_leftEnd, ← left]
  have rightEnd : layout.placement.rightEnd = frame.point ⟨extent.width, extent.leftPort.y⟩ := by
    rw [group, placement_rightEnd, right]
  refine ⟨layout.placement.along frame.origin + 0,
    layout.placement.along frame.origin + extent.width, _, _, ?_, ?_, ?_, ?_, ?_, ?_,
    leftEnd ▸ isBus_busWires sameTurn 0 extent.leftPort.y lefts,
    rightEnd ▸ isBus_busWires sameTurn extent.width extent.leftPort.y rights⟩
  · rw [group, Alignment.parallel_leftBus isParallel 0, ← group, along]
  · rw [group, Alignment.parallel_rightBus isParallel 0, ← group, along]
  · exact add_lt_add_right wide _
  · rw [leftEnd, along]
  · rw [rightEnd, along]
  · rw [flatMap_stubs sameTurn ends, group, Alignment.parallel_wires isParallel]
    rfl

/-- Three branches with ports at different heights, of which the first two are sloped. -/
def slopedBranches : List (Measure Rat) :=
  [.node ⟨.element ⟨.resistor, some "1"⟩, 100, 30, ⟨0, 5⟩, ⟨100, 25⟩⟩ [],
    .node ⟨.element ⟨.resistor, some "2"⟩, 60, 40, ⟨0, 15⟩, ⟨60, 5⟩⟩ [],
    .node ⟨.element ⟨.resistor, some "3"⟩, 100, 20, ⟨0, 10⟩, ⟨100, 10⟩⟩ []]

/-- The port of the group is level with that of the second branch, and on the right two
branches overlap so far that their ports are at the same height. -/
theorem parallel_buses_split_at_taps_overlapping :
    ∃ extent,
      parallelExtent ⟨-10, 40, 20, 30, 0, 0, .center, false⟩
        (.parallel (slopedBranches.map Measure.circuit))
        (slopedBranches.map Measure.extent) = .ok extent ∧
      (∀ part ∈ slopedBranches, part.extent.HasEdgePorts) ∧
      ((Measure.node extent slopedBranches).place ⟨-10, 40, 20, 30, 0, 0, .center, false⟩
        ⟨⟨9, 4⟩, true⟩).HasSplitBuses ∧
      ((Measure.node extent slopedBranches).place ⟨-10, 40, 20, 30, 0, 0, .center, false⟩
        ⟨⟨9, 4⟩, true⟩).placement.wires.length = 6 := by
  have edged : ∀ part ∈ slopedBranches, part.extent.HasEdgePorts := by
    simp only [slopedBranches, List.forall_mem_cons, List.not_mem_nil, false_imp_iff, implies_true,
      and_true]
    exact ⟨⟨by decide, rfl, rfl⟩, ⟨by decide, rfl, rfl⟩, ⟨by decide, rfl, rfl⟩⟩
  exact ⟨_, rfl, edged, parallel_buses_split_at_taps _ ⟨⟨9, 4⟩, true⟩ rfl edged, by decide +kernel⟩

end

end Schematic
