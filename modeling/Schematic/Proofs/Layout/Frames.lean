import Schematic.Layout.Place
import Schematic.Proofs.Exact

/-!
# Frames of placed circuits

The parts of a circuit are placed in frames of their own.  This file says where
these frames are in the frame of the circuit: parts in a row start where those
before them end, and a shunt is turned.
-/

namespace Schematic

namespace Point

variable {α : Type} [Scalar α]

@[simp]
theorem add_x (first second : Point α) : (first + second).x = first.x + second.x :=
  rfl

@[simp]
theorem add_y (first second : Point α) : (first + second).y = first.y + second.y :=
  rfl

@[simp]
theorem mk_add_mk (x y otherX otherY : α) :
    (⟨x, y⟩ + ⟨otherX, otherY⟩ : Point α) = ⟨x + otherX, y + otherY⟩ :=
  rfl

omit [Scalar α] in
theorem eq_of_coordinates {first second : Point α} (sameX : first.x = second.x)
    (sameY : first.y = second.y) : first = second := by
  cases first
  cases second
  exact congr (congrArg Point.mk sameX) sameY

theorem add_comm (first second : Point Rat) : first + second = second + first :=
  eq_of_coordinates (Rat.add_comm first.x second.x) (Rat.add_comm first.y second.y)

theorem same_iff {first second : Point Rat} : first.same second = true ↔ first = second := by
  constructor
  · intro same
    rw [Point.same, Bool.and_eq_true, beq_iff_eq, beq_iff_eq] at same
    exact eq_of_coordinates same.1 same.2
  · rintro rfl
    simp [Point.same]

end Point

namespace Wire

/-- The wire with both ends moved by an offset. -/
def shifted (wire : Wire Rat) (offset : Point Rat) : Wire Rat :=
  ⟨offset + wire.start, offset + wire.finish⟩

/-- The wire with its axes exchanged. -/
def transposed (wire : Wire Rat) : Wire Rat :=
  ⟨wire.start.transposed, wire.finish.transposed⟩

end Wire

/-! ## Frames in frames -/

namespace Frame

variable (frame : Frame Rat)

/-- The frame of a part with its top-left corner at a local point. -/
def shifted (corner : Point Rat) : Frame Rat :=
  ⟨frame.point corner, frame.rotated⟩

/-- The frame of a part that is turned at a local point. -/
def turned (corner : Point Rat) : Frame Rat :=
  ⟨frame.point corner, !frame.rotated⟩

theorem point_shifted (corner point : Point Rat) :
    (frame.shifted corner).point point = frame.point (corner + point) := by
  apply Point.eq_of_coordinates
  all_goals
    cases rotated : frame.rotated <;>
      simp [shifted, Frame.point, offset, rotated, Point.transposed, add_assoc]

theorem point_turned (corner point : Point Rat) :
    (frame.turned corner).point point = frame.point (corner + point.transposed) := by
  apply Point.eq_of_coordinates
  all_goals
    cases rotated : frame.rotated <;>
      simp [turned, Frame.point, offset, rotated, Point.transposed, add_assoc]

theorem mem_connect {wire : Wire Rat} {start finish : Point Rat} :
    wire ∈ frame.connect start finish ↔ start ≠ finish ∧ wire = frame.wire start finish := by
  unfold connect
  split
  · next same => simp [Point.same_iff.mp same]
  · next different =>
    rw [Point.same_iff] at different
    simp [different]

end Frame

/-! ## Placements -/

@[simp]
theorem placement_circuit {α : Type} [Scalar α] {settings : LayoutSettings α}
    {extent : Extent α} {parts : List (Extent α)} {frame : Frame α} :
    (placement settings extent parts frame).circuit = extent.circuit := by
  unfold placement
  split <;> rfl

section

variable {settings : LayoutSettings Rat} {extent : Extent Rat} {parts : List (Extent Rat)}
  {frame : Frame Rat}

@[simp]
theorem placement_rotated : (placement settings extent parts frame).rotated = frame.rotated := by
  unfold placement
  split <;> rfl

@[simp]
theorem placement_origin : (placement settings extent parts frame).origin = frame.origin := by
  unfold placement
  split <;> rfl

@[simp]
theorem placement_leftEnd :
    (placement settings extent parts frame).leftEnd = frame.point extent.leftPort := by
  unfold placement
  split <;> rfl

@[simp]
theorem placement_rightEnd :
    (placement settings extent parts frame).rightEnd = frame.point extent.rightPort := by
  unfold placement
  split <;> rfl

@[simp]
theorem placement_bottomRight :
    (placement settings extent parts frame).bottomRight =
      frame.point ⟨extent.width, extent.height⟩ := by
  unfold placement
  split <;> rfl

end

namespace Placement

/-- The coordinate along the signal grows with the first local coordinate. -/
theorem along_point (placement : Placement Rat) (frame : Frame Rat)
    (sameTurn : placement.rotated = frame.rotated) (point : Point Rat) :
    placement.along (frame.point point) = placement.along frame.origin + point.x := by
  cases rotated : frame.rotated <;>
    simp [along, sameTurn, rotated, Frame.point, Frame.offset, Point.transposed]

/-- The coordinate across the signal grows with the second local coordinate. -/
theorem across_point (placement : Placement Rat) (frame : Frame Rat)
    (sameTurn : placement.rotated = frame.rotated) (point : Point Rat) :
    placement.across (frame.point point) = placement.across frame.origin + point.y := by
  cases rotated : frame.rotated <;>
    simp [across, sameTurn, rotated, Frame.point, Frame.offset, Point.transposed]

end Placement

/-! ## Rows of parts -/

/-- Where a part of a row starts, from the lengths of the parts. -/
def startOf (lengths : List Rat) (index : Nat) : Rat :=
  (lengths.take index).sum

@[simp]
theorem startOf_zero (lengths : List Rat) : startOf lengths 0 = 0 := by
  simp [startOf]

@[simp]
theorem startOf_cons_succ (length : Rat) (lengths : List Rat) (index : Nat) :
    startOf (length :: lengths) (index + 1) = length + startOf lengths index := by
  simp [startOf]

theorem startOf_length (lengths : List Rat) : startOf lengths lengths.length = lengths.sum := by
  rw [startOf, List.take_length]

theorem startOf_succ {lengths : List Rat} {index : Nat} {length : Rat}
    (found : lengths[index]? = some length) :
    startOf lengths (index + 1) = startOf lengths index + length := by
  rw [startOf, List.take_add_one, found, List.sum_append]
  simp [startOf]

section

variable {lengths : List Rat}

theorem startOf_mono (nonnegative : ∀ length ∈ lengths, 0 ≤ length) {low high : Nat}
    (ordered : low ≤ high) : startOf lengths low ≤ startOf lengths high :=
  (List.take_sublist_take_left ordered).sum_le_sum fun length member =>
    nonnegative length (List.mem_of_mem_take member)

theorem startOf_nonneg (nonnegative : ∀ length ∈ lengths, 0 ≤ length) (index : Nat) :
    0 ≤ startOf lengths index := by
  have mono := startOf_mono nonnegative (Nat.zero_le index)
  rwa [startOf_zero] at mono

/-- A member of a row ends before later ones start. -/
theorem startOf_add_le (nonnegative : ∀ length ∈ lengths, 0 ≤ length) {low high : Nat}
    {length : Rat} (found : lengths[low]? = some length) (before : low < high) :
    startOf lengths low + length ≤ startOf lengths high := by
  rw [← startOf_succ found]
  exact startOf_mono nonnegative before

/-- A member of a row ends before the row does. -/
theorem startOf_add_le_sum (nonnegative : ∀ length ∈ lengths, 0 ≤ length) {index : Nat}
    {length : Rat} (found : lengths[index]? = some length) :
    startOf lengths index + length ≤ lengths.sum := by
  rw [← startOf_length]
  exact startOf_add_le nonnegative found (List.getElem?_eq_some_iff.mp found).1

end

section

variable {settings : LayoutSettings Rat} {frame : Frame Rat}

/-- The corner of the member of a series group at `index`. -/
def memberCorner (line : Rat) (members : List (Extent Rat)) (index : Nat)
    (member : Extent Rat) : Point Rat :=
  ⟨startOf (members.map Extent.width) index, line - member.leftPort.y⟩

theorem seriesFrames_getElem? (line x : Rat) (members : List (Extent Rat)) (index : Nat) :
    (seriesFrames frame line x members)[index]? = members[index]?.map fun member =>
      frame.shifted (⟨x, 0⟩ + memberCorner line members index member) := by
  induction members generalizing x index with
  | nil => simp [seriesFrames]
  | cons member rest ih =>
      cases index with
      | zero =>
          rw [seriesFrames, List.getElem?_cons_zero, List.getElem?_cons_zero, Option.map_some]
          simp only [Frame.shifted, memberCorner, startOf_zero]
          congr 3
          apply Point.eq_of_coordinates <;> simp
      | succ index =>
          rw [seriesFrames, List.getElem?_cons_succ, List.getElem?_cons_succ, ih]
          congr 1
          funext next
          congr 1
          apply Point.eq_of_coordinates <;> simp [memberCorner, add_assoc]

/-- The heights of branches with the gaps below them. -/
def branchPitches (settings : LayoutSettings Rat) (branches : List (Extent Rat)) : List Rat :=
  branches.map fun branch => branch.height + settings.parallelSpacing

theorem branchSlots_getElem? (width y : Rat) (branches : List (Extent Rat)) (index : Nat) :
    (branchSlots settings width y branches)[index]? = branches[index]?.map fun branch =>
      ⟨branch, ⟨branchIndent settings.branchAlignment width branch,
        y + startOf (branchPitches settings branches) index⟩⟩ := by
  induction branches generalizing y index with
  | nil => simp [branchSlots]
  | cons branch rest ih =>
      cases index with
      | zero => simp [branchSlots]
      | succ index =>
          rw [branchSlots, List.getElem?_cons_succ, List.getElem?_cons_succ, ih]
          simp [branchPitches, add_assoc]

theorem linkSlots_getElem? (x : Rat) (links : List (LinkKind × Extent Rat)) (index : Nat) :
    (linkSlots settings x links)[index]? = links[index]?.map fun link =>
      ⟨link.1, link.2, x + startOf (links.map (slotWidth settings)) index,
        slotWidth settings link⟩ := by
  induction links generalizing x index with
  | nil => simp [linkSlots]
  | cons link rest ih =>
      cases index with
      | zero => simp [linkSlots]
      | succ index =>
          simp [linkSlots, ih, add_assoc]

end

/-! ## Placed parts -/

section

variable {α : Type} [Scalar α] {settings : LayoutSettings α} {frame : Frame α}

theorem placeAll_eq (parts : List (Measure α)) (frames : List (Frame α)) :
    placeAll settings parts frames =
      List.zipWith (fun part frame => part.place settings frame) parts frames := by
  induction parts generalizing frames with
  | nil => simp [placeAll]
  | cons part parts ih =>
      cases frames with
      | nil => simp [placeAll]
      | cons frame frames => simp [placeAll, ih]

theorem Measure.exists_of_mem_children {measure : Measure α} {child : Layout α}
    (member : child ∈ (measure.place settings frame).children) :
    ∃ part ∈ measure.parts, ∃ partFrame, part.place settings partFrame = child := by
  cases measure with
  | node extent parts =>
      rw [Measure.place, Layout.children, placeAll_eq] at member
      obtain ⟨index, found⟩ := List.mem_iff_getElem?.mp member
      obtain ⟨part, partFrame, foundPart, -, same⟩ := List.getElem?_zipWith_eq_some.mp found
      exact ⟨part, List.mem_of_getElem? foundPart, partFrame, same⟩

end

section

variable {settings : LayoutSettings Rat} {frame : Frame Rat}

/-- The extents of the parts of a measure. -/
def Measure.extents (measure : Measure Rat) : List (Extent Rat) :=
  measure.parts.map Measure.extent

theorem Measure.extents_getElem? {measure part : Measure Rat} {index : Nat}
    (found : measure.parts[index]? = some part) :
    measure.extents[index]? = some part.extent := by
  simp [extents, found]

theorem Measure.place_placement (measure : Measure Rat) :
    (measure.place settings frame).placement =
      placement settings measure.extent measure.extents frame := by
  cases measure
  rfl

theorem Measure.place_child {measure : Measure Rat} {index : Nat} {child : Layout Rat} :
    (measure.place settings frame).children[index]? = some child ↔
      ∃ part partFrame, measure.parts[index]? = some part ∧
        (partFrames settings measure.extent measure.extents frame)[index]? = some partFrame ∧
        part.place settings partFrame = child := by
  cases measure
  simp only [Measure.place, Layout.children, placeAll_eq, Measure.parts, Measure.extent,
    Measure.extents, List.getElem?_zipWith_eq_some]

/-- The placements of the parts of a placed circuit. -/
theorem Measure.childPlacement {measure : Measure Rat} {index : Nat} {part : Placement Rat}
    (found : ((measure.place settings frame).children.map Layout.placement)[index]? =
      some part) :
    ∃ inner partFrame, measure.parts[index]? = some inner ∧
      (partFrames settings measure.extent measure.extents frame)[index]? = some partFrame ∧
      part = placement settings inner.extent inner.extents partFrame := by
  rw [List.getElem?_map, Option.map_eq_some_iff] at found
  obtain ⟨child, foundChild, rfl⟩ := found
  obtain ⟨inner, partFrame, foundInner, foundFrame, rfl⟩ := place_child.mp foundChild
  exact ⟨inner, partFrame, foundInner, foundFrame, inner.place_placement⟩

variable {extent : Extent Rat} {parts : List (Extent Rat)}

theorem partFrames_series {members : List Circuit} (isSeries : extent.circuit = .series members)
    (index : Nat) :
    (partFrames settings extent parts frame)[index]? = parts[index]?.map fun part =>
      frame.shifted (memberCorner extent.leftPort.y parts index part) := by
  rw [partFrames, isSeries]
  simp only [seriesFrames_getElem?, Scalar.zero_eq]
  congr 1
  funext part
  congr 1
  apply Point.eq_of_coordinates <;> simp

/-- The corner of the branch of a parallel group at `index`. -/
def branchCorner (settings : LayoutSettings Rat) (width : Rat) (branches : List (Extent Rat))
    (index : Nat) (branch : Extent Rat) : Point Rat :=
  ⟨branchIndent settings.branchAlignment width branch,
    startOf (branchPitches settings branches) index⟩

theorem branchSlots_getElem?_zero (width : Rat) (index : Nat) :
    (branchSlots settings width Scalar.zero parts)[index]? = parts[index]?.map fun part =>
      ⟨part, branchCorner settings width parts index part⟩ := by
  simp [branchSlots_getElem?, branchCorner]

theorem partFrames_parallel {branches : List Circuit}
    (isParallel : extent.circuit = .parallel branches) (index : Nat) :
    (partFrames settings extent parts frame)[index]? = parts[index]?.map fun part =>
      frame.shifted (branchCorner settings extent.width parts index part) := by
  rw [partFrames, isParallel]
  simp only [List.getElem?_map, branchSlots_getElem?_zero, Option.map_map]
  rfl

/-- The slot of the link of a twoport at `index`. -/
def slotAt (settings : LayoutSettings Rat) (links : List (LinkKind × Extent Rat)) (index : Nat)
    (link : LinkKind × Extent Rat) : LinkSlot Rat :=
  ⟨link.1, link.2, startOf (links.map (slotWidth settings)) index, slotWidth settings link⟩

theorem linkSlots_getElem?_zero (links : List (LinkKind × Extent Rat)) (index : Nat) :
    (linkSlots settings Scalar.zero links)[index]? =
      links[index]?.map (slotAt settings links index) := by
  rw [linkSlots_getElem?]
  simp only [Scalar.zero_eq, zero_add]
  rfl

theorem LinkSlot.targetFrame_series {slot : LinkSlot Rat} {lines : TwoportLines Rat}
    (isSeries : slot.kind = .series) (point : Point Rat) :
    (slot.targetFrame frame lines).point point =
      frame.point (⟨slot.start, lines.signal - slot.target.leftPort.y⟩ + point) := by
  rw [targetFrame, isSeries]
  exact frame.point_shifted _ point

theorem LinkSlot.targetFrame_shunt {slot : LinkSlot Rat} {lines : TwoportLines Rat}
    (isShunt : slot.kind = .shunt) (point : Point Rat) :
    (slot.targetFrame frame lines).point point =
      frame.point (⟨slot.middle - slot.target.leftPort.y, lines.shuntTop⟩ +
        point.transposed) := by
  rw [targetFrame, isShunt]
  exact frame.point_turned _ point

theorem partFrames_twoport {links : List (Link Circuit)}
    (isTwoport : extent.circuit = .twoport links) (index : Nat) :
    (partFrames settings extent parts frame)[index]? =
      ((links.map Link.kind).zip parts)[index]?.map fun link =>
        (slotAt settings ((links.map Link.kind).zip parts) index link).targetFrame frame
          (twoportLines settings ((links.map Link.kind).zip parts)) := by
  rw [partFrames, isTwoport]
  simp only [List.getElem?_map, linkSlots_getElem?_zero, Option.map_map, Circuit.linkExtents,
    Circuit.linkKinds]
  rfl

end

end Schematic
