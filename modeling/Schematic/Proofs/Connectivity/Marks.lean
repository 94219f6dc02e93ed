import Schematic.Proofs.Connectivity.Netlist
import Schematic.Proofs.Connectivity.Pictures
import Schematic.Proofs.Connectivity.Roomy

/-!
# The picture of a part

The wires of a part and the ports of its elements are drawn in the frame of the
part.  Every wire gets the label of the end of a parallel group that it belongs
to, and every port of an element its own label.  This file proves that the
picture of a part is tidy, for all labels that agree on the ties of the part.
-/

namespace Schematic

open Schematic.Alignment (Side)

/-- The port of an extent on one side. -/
def Extent.port (extent : Extent Rat) : Side → Point Rat
  | .left => extent.leftPort
  | .right => extent.rightPort

/-- The corner of a part of a series or parallel group. -/
def partCorner (settings : LayoutSettings Rat) (extent : Extent Rat) (parts : List (Extent Rat))
    (index : Nat) (part : Extent Rat) : Point Rat :=
  match extent.circuit with
  | .series _ => memberCorner extent.leftPort.y parts index part
  | _ => branchCorner settings extent.width parts index part

/-- The stubs and buses of a parallel group, in its own frame. -/
inductive GroupWire (extent : Extent Rat) (slots : List (BranchSlot Rat)) :
    Side → Wire Rat → Prop where
  | leftStub {slot : BranchSlot Rat} : slot ∈ slots →
      GroupWire extent slots .left ⟨⟨0, slot.leftPort.y⟩, slot.leftPort⟩
  | rightStub {slot : BranchSlot Rat} : slot ∈ slots →
      GroupWire extent slots .right ⟨slot.rightPort, ⟨extent.width, slot.rightPort.y⟩⟩
  | leftBus {top bottom : Rat} :
      top ∈ busTaps extent.leftPort.y (slots.map fun slot => slot.leftPort.y) →
      bottom ∈ busTaps extent.leftPort.y (slots.map fun slot => slot.leftPort.y) →
      GroupWire extent slots .left ⟨⟨0, top⟩, ⟨0, bottom⟩⟩
  | rightBus {top bottom : Rat} :
      top ∈ busTaps extent.leftPort.y (slots.map fun slot => slot.rightPort.y) →
      bottom ∈ busTaps extent.leftPort.y (slots.map fun slot => slot.rightPort.y) →
      GroupWire extent slots .right ⟨⟨extent.width, top⟩, ⟨extent.width, bottom⟩⟩

section

variable {Label : Type}

/-- Labels of the ends of all parts. -/
abbrev PortLabels (Label : Type) := List Nat → Side → Label

/-- The labels of the parts inside of one part. -/
def PortLabels.within (labels : PortLabels Label) (index : Nat) : PortLabels Label :=
  fun path => labels (index :: path)

/-- Directly connected ends have the same label. -/
def PortLabels.Agree (labels : PortLabels Label) (circuit : Circuit) : Prop :=
  ∀ path side otherPath otherSide,
    circuit.Tie (.port path side) (.port otherPath otherSide) →
      labels path side = labels otherPath otherSide

theorem PortLabels.Agree.within {labels : PortLabels Label} {circuit part : Circuit}
    (agree : labels.Agree circuit) {index : Nat} (found : circuit.parts[index]? = some part) :
    (labels.within index).Agree part :=
  fun _ _ _ _ tie => agree _ _ _ _ (.inside found tie)

/-- The labelled wires and ports of a measured part. -/
inductive Marks (settings : LayoutSettings Rat) :
    Measure Rat → PortLabels Label → Picture Label where
  | port {measure : Measure Rat} {labels : PortLabels Label} {element : Element} (side : Side) :
      measure.circuit = .element element →
      Marks settings measure labels (.dot (measure.extent.port side)) (labels [] side)
  | own {measure : Measure Rat} {labels : PortLabels Label} {branches : List Circuit}
      {side : Side} {wire : Wire Rat} :
      measure.circuit = .parallel branches →
      GroupWire measure.extent
        (branchSlots settings measure.extent.width Scalar.zero measure.extents) side wire →
      Marks settings measure labels wire (labels [] side)
  | part {measure part : Measure Rat} {labels : PortLabels Label} {index : Nat}
      {wire : Wire Rat} {label : Label} :
      measure.parts[index]? = some part →
      Marks settings part (labels.within index) wire label →
      Marks settings measure labels
        (wire.shifted (partCorner settings measure.extent measure.extents index part.extent)) label

end

open Picture

/-- Whatever the labels are, the picture is tidy, and has some room above and
below. -/
def Clean (settings : LayoutSettings Rat) (measure : Measure Rat) : Prop :=
  ∀ (Label : Type) (labels : PortLabels Label), labels.Agree measure.circuit →
    Tidy measure.extent.width (labels [] .left) (labels [] .right)
        (Marks settings measure labels) ∧
      Within 10 (measure.extent.height - 10) (Marks settings measure labels)

variable {settings : LayoutSettings Rat} {measure : Measure Rat}

/-! ## Elements -/

theorem clean_element {element : Element} (isElement : measure.circuit = .element element)
    (roomy : measure.extent.IsRoomy) (noParts : measure.parts = []) : Clean settings measure := by
  intro Label labels _
  have wide := roomy.wide
  have high := roomy.high
  have marks : ∀ ⦃wire label⦄, Marks settings measure labels wire label →
      Union (Only (.dot ⟨0, measure.extent.height / 2⟩) (labels [] .left))
        (Only (.dot ⟨measure.extent.width, measure.extent.height / 2⟩) (labels [] .right))
        wire label := by
    intro wire label isMark
    cases isMark with
    | port side _ =>
        cases side with
        | left => exact .inl ⟨by rw [Extent.port, roomy.leftPort], rfl⟩
        | right => exact .inr ⟨by rw [Extent.port, roomy.rightPort], rfl⟩
    | own isParallel _ =>
        rw [isElement] at isParallel
        cases isParallel
    | part found _ =>
        rw [noParts] at found
        cases found
  refine ⟨(tidy_dots (by linarith) _ _ _).mono marks, ?_⟩
  intro wire label isMark point isEnd
  have level : point.y = measure.extent.height / 2 := by
    rcases marks isMark with ⟨rfl, -⟩ | ⟨rfl, -⟩ <;>
      simp only [Wire.ends, Wire.dot, List.mem_cons, List.not_mem_nil, or_false,
        or_self] at isEnd <;>
      rw [isEnd]
  rw [level]
  constructor <;> linarith

/-! ## Groups -/

/-- The pictures of the parts, by their positions. -/
def partPictures {Label : Type} (settings : LayoutSettings Rat) (measure : Measure Rat)
    (labels : PortLabels Label) (arrange : Extent Rat → Picture Label → Picture Label)
    (index : Nat) : Picture Label :=
  fun wire label => ∃ part, measure.parts[index]? = some part ∧
    arrange part.extent (Marks settings part (labels.within index)) wire label

theorem Clean.part {Label : Type} {labels : PortLabels Label}
    (clean : ∀ part ∈ measure.parts, Clean settings part) (agree : labels.Agree measure.circuit)
    (sameParts : measure.circuit.parts = measure.parts.map Measure.circuit) {part : Measure Rat}
    {index : Nat} (found : measure.parts[index]? = some part) :
    Tidy part.extent.width (labels [index] .left) (labels [index] .right)
        (Marks settings part (labels.within index)) ∧
      Within 10 (part.extent.height - 10) (Marks settings part (labels.within index)) := by
  have foundCircuit : measure.circuit.parts[index]? = some part.circuit := by
    simp [sameParts, found]
  exact clean part (List.mem_of_getElem? found) Label (labels.within index)
    (agree.within foundCircuit)

theorem roomy_extents (roomy : ∀ part ∈ measure.parts, part.extent.IsRoomy) :
    ∀ extent ∈ measure.extents, extent.IsRoomy :=
  List.forall_mem_map.mpr roomy

theorem centred_extents (roomy : ∀ part ∈ measure.parts, part.extent.IsRoomy) :
    ∀ extent ∈ measure.extents, extent.IsCentred :=
  fun extent isExtent => (roomy_extents roomy extent isExtent).isCentred

theorem exists_part_of_extents {index : Nat} {part : Extent Rat}
    (found : measure.extents[index]? = some part) :
    ∃ inner, measure.parts[index]? = some inner ∧ inner.extent = part := by
  rw [Measure.extents, List.getElem?_map, Option.map_eq_some_iff] at found
  exact found

/-- The pictures of the parts are tidy where they are arranged, if arranging
keeps a picture tidy. -/
theorem tidy_partPictures {Label : Type} {labels : PortLabels Label} {width : Rat}
    {left right : Label} {arrange : Extent Rat → Picture Label → Picture Label}
    {part : Measure Rat} {index : Nat} (found : measure.parts[index]? = some part)
    (tidy : Tidy width left right
      (arrange part.extent (Marks settings part (labels.within index)))) :
    Tidy width left right (partPictures settings measure labels arrange index) := by
  refine tidy.mono ?_
  rintro wire label ⟨other, otherFound, isMark⟩
  obtain rfl : other = part := Option.some_inj.mp (otherFound.symm.trans found)
  exact isMark

section

variable {Label : Type} {labels : PortLabels Label}
  (isSeries : measure.circuit = .series (measure.parts.map Measure.circuit))
  (roomy : ∀ part ∈ measure.parts, part.extent.IsRoomy)

/-- How far a member is below the top of its group. -/
def memberDrop (group member : Extent Rat) : Rat :=
  group.height / 2 - member.height / 2

include isSeries roomy in
theorem marks_series (groupRoomy : measure.extent.IsRoomy) {wire : Wire Rat} {label : Label}
    (isMark : Marks settings measure labels wire label) :
    ∃ index part inner, measure.parts[index]? = some part ∧
      Marks settings part (labels.within index) inner label ∧
      wire = inner.shifted ⟨startOf (measure.extents.map Extent.width) index,
        memberDrop measure.extent part.extent⟩ := by
  have isSeries' : measure.extent.circuit = .series (measure.parts.map Measure.circuit) := isSeries
  cases isMark with
  | port _ isElement =>
      rw [isSeries] at isElement
      cases isElement
  | own isParallel _ =>
      rw [isSeries] at isParallel
      cases isParallel
  | @part _ part _ index inner _ found isMark =>
      refine ⟨index, part, inner, found, isMark, ?_⟩
      have partRoomy := roomy part (List.mem_of_getElem? found)
      simp only [partCorner, isSeries', memberCorner, groupRoomy.leftPort, partRoomy.leftPort,
        memberDrop]

/-- The members of a series group, each at its height. -/
def memberPictures (settings : LayoutSettings Rat) (measure : Measure Rat)
    (labels : PortLabels Label) : Nat → Picture Label :=
  partPictures settings measure labels fun member =>
    Moved ⟨0, memberDrop measure.extent member⟩

include isSeries roomy in
theorem isRow_series (clean : ∀ part ∈ measure.parts, Clean settings part)
    (agree : labels.Agree measure.circuit) :
    IsRow (measure.extents.map Extent.width) (fun index => labels [index] .left)
      (fun index => labels [index] .right) (memberPictures settings measure labels) where
  wide := by
    intro width isWidth
    obtain ⟨member, isMember, rfl⟩ := List.mem_map.mp isWidth
    linarith [(roomy_extents roomy member isMember).wide]
  tidy := by
    intro index width found
    obtain ⟨_, foundExtent, rfl⟩ := Option.map_eq_some_iff.mp (List.getElem?_map ▸ found)
    obtain ⟨part, foundPart, rfl⟩ := exists_part_of_extents foundExtent
    have sameParts : measure.circuit.parts = measure.parts.map Measure.circuit := by
      rw [isSeries, Circuit.parts]
    have partTidy := (Clean.part clean agree sameParts foundPart).1
    exact tidy_partPictures foundPart (partTidy.moved le_rfl (zero_add _).le)
  meet := by
    intro index nextLt
    rw [isSeries] at agree
    exact agree _ _ _ _ (.next (by simpa [Measure.extents] using nextLt))

end

theorem clean_series (isSeries : measure.circuit = .series (measure.parts.map Measure.circuit))
    (nonempty : measure.parts ≠ [])
    (measured : seriesExtent measure.circuit measure.extents = .ok measure.extent)
    (roomy : ∀ part ∈ measure.parts, part.extent.IsRoomy)
    (clean : ∀ part ∈ measure.parts, Clean settings part) : Clean settings measure := by
  intro Label labels agree
  obtain ⟨groupRoomy, fits⟩ := seriesExtent_isRoomy measured (roomy_extents roomy)
  have agreeSeries : labels.Agree (.series (measure.parts.map Measure.circuit)) :=
    isSeries ▸ agree
  have starts : labels [] .left = labels [0] .left :=
    agreeSeries _ _ _ _ (.first (by simpa [List.length_pos_iff] using nonempty))
  have finishes : ∀ index, index + 1 = (measure.extents.map Extent.width).length →
      labels [index] .right = labels [] .right := fun index isLast =>
    agreeSeries _ _ _ _ (.last (by simpa [Measure.extents] using isLast))
  have row := (isRow_series isSeries roomy clean agree).tidy_row finishes
  rw [← seriesExtent_width measured, ← starts] at row
  constructor
  · refine row.mono fun wire label isMark => ?_
    obtain ⟨index, part, inner, found, isInner, rfl⟩ :=
      marks_series isSeries roomy groupRoomy isMark
    refine ⟨index, ?_, inner.shifted ⟨0, memberDrop measure.extent part.extent⟩,
      ⟨part, found, inner, isInner, rfl⟩, ?_⟩
    · simpa [Measure.extents] using (List.getElem?_eq_some_iff.mp found).1
    · rw [Wire.shifted_shifted, Point.mk_add_mk, add_zero, zero_add]
  · intro wire label isMark point isEnd
    obtain ⟨index, part, inner, found, isInner, rfl⟩ :=
      marks_series isSeries roomy groupRoomy isMark
    obtain ⟨stop, isStop, rfl⟩ := Wire.mem_ends_shifted.mp isEnd
    have sameParts : measure.circuit.parts = measure.parts.map Measure.circuit := by
      rw [isSeries, Circuit.parts]
    obtain ⟨low, high⟩ := (Clean.part clean agree sameParts found).2 isInner stop isStop
    have height := fits part.extent (List.mem_map_of_mem (List.mem_of_getElem? found))
    simp only [Point.add_y, memberDrop]
    constructor <;> linarith

/-- A bus is met at the port of its group, and at the ports of the branches. -/
theorem exists_tap {group : Extent Rat} {parts : List (Extent Rat)} (groupCentred : group.IsCentred)
    (centred : ∀ part ∈ parts, part.IsCentred) {port : BranchSlot Rat → Point Rat}
    (isPort : port = BranchSlot.leftPort ∨ port = BranchSlot.rightPort) {height : Rat}
    (isTap : height ∈ busTaps group.leftPort.y
      ((branchSlots settings group.width Scalar.zero parts).map fun slot => (port slot).y)) :
    height = group.height / 2 ∨ ∃ (index : Nat) (branch : Extent Rat), parts[index]? = some branch ∧
      height = startOf (branchPitches settings parts) index + branch.height / 2 := by
  rcases mem_busTaps.mp isTap with rfl | isBranch
  · exact .inl (by rw [groupCentred.leftPort])
  · obtain ⟨slot, isSlot, rfl⟩ := List.mem_map.mp isBranch
    obtain ⟨index, branch, found, rfl⟩ := mem_branchSlots.mp isSlot
    have ports := branchSlot_ports (centred branch (List.mem_of_getElem? found))
      (branchCorner settings group.width parts index branch)
    refine .inr ⟨index, branch, found, ?_⟩
    rcases isPort with rfl | rfl
    · rw [ports.1, branchCorner]
    · rw [ports.2, branchCorner]

section

variable {Label : Type} {labels : PortLabels Label}

/-- A branch with the stubs to its buses. -/
def branchPicture (settings : LayoutSettings Rat) (group : Extent Rat) (labels : PortLabels Label)
    (branch : Extent Rat) : Picture Label → Picture Label :=
  Widened group.width (branchIndent settings.branchAlignment group.width branch) branch.width
    (branch.height / 2) (labels [] .left) (labels [] .right)

/-- The stacked branches of a parallel group. -/
def stackPicture (settings : LayoutSettings Rat) (measure : Measure Rat)
    (labels : PortLabels Label) : Picture Label :=
  Placed measure.parts.length
    (fun index => ⟨0, startOf (branchPitches settings measure.extents) index⟩)
    (partPictures settings measure labels (branchPicture settings measure.extent labels))

/-- The heights at which something meets a bus of a parallel group. -/
def IsTap (settings : LayoutSettings Rat) (measure : Measure Rat)
    (port : BranchSlot Rat → Point Rat) (height : Rat) : Prop :=
  height ∈ busTaps measure.extent.leftPort.y
    ((branchSlots settings measure.extent.width Scalar.zero measure.extents).map
      fun slot => (port slot).y)

/-- The stacked branches and the buses of a parallel group. -/
def groupPicture (settings : LayoutSettings Rat) (measure : Measure Rat)
    (labels : PortLabels Label) : Picture Label :=
  Union (Upright 0 (IsTap settings measure BranchSlot.leftPort) (labels [] .left)) <|
    Union (Upright measure.extent.width (IsTap settings measure BranchSlot.rightPort)
      (labels [] .right)) (stackPicture settings measure labels)

variable (isParallel : measure.circuit = .parallel (measure.parts.map Measure.circuit))
  (nonnegative : settings.IsNonnegative)
  (measured : parallelExtent settings measure.circuit measure.extents = .ok measure.extent)
  (roomy : ∀ part ∈ measure.parts, part.extent.IsRoomy)
  (clean : ∀ part ∈ measure.parts, Clean settings part)
  (agree : labels.Agree measure.circuit)

include isParallel roomy in
theorem marks_parallel ⦃wire : Wire Rat⦄ ⦃label : Label⦄
    (isMark : Marks settings measure labels wire label) :
    groupPicture settings measure labels wire label := by
  have isGroup : measure.extent.circuit = .parallel (measure.parts.map Measure.circuit) :=
    isParallel
  have inStack : ∀ {index : Nat} {part : Measure Rat} {inner : Wire Rat} {label : Label}
      (corner : Point Rat), measure.parts[index]? = some part →
      corner = ⟨0, startOf (branchPitches settings measure.extents) index⟩ →
      branchPicture settings measure.extent labels part.extent
        (Marks settings part (labels.within index)) inner label →
      groupPicture settings measure labels (inner.shifted corner) label := by
    rintro index part inner label corner found rfl isInner
    exact .inr (.inr ⟨index, (List.getElem?_eq_some_iff.mp found).1, inner,
      ⟨part, found, isInner⟩, rfl⟩)
  cases isMark with
  | port _ isElement =>
      rw [isParallel] at isElement
      cases isElement
  | own _ isWire =>
      cases isWire with
      | leftStub isSlot =>
          obtain ⟨index, branch, found, rfl⟩ := mem_branchSlots.mp isSlot
          obtain ⟨part, foundPart, rfl⟩ := exists_part_of_extents found
          have stub := inStack _ foundPart rfl (.inl ⟨rfl, rfl⟩)
          have partRoomy := roomy part (List.mem_of_getElem? foundPart)
          simpa [(branchSlot_ports partRoomy.isCentred _).1, Wire.shifted, branchCorner] using stub
      | rightStub isSlot =>
          obtain ⟨index, branch, found, rfl⟩ := mem_branchSlots.mp isSlot
          obtain ⟨part, foundPart, rfl⟩ := exists_part_of_extents found
          have stub := inStack _ foundPart rfl (.inr (.inl ⟨rfl, rfl⟩))
          have partRoomy := roomy part (List.mem_of_getElem? foundPart)
          simpa [(branchSlot_ports partRoomy.isCentred _).2, Wire.shifted, branchCorner] using stub
      | leftBus isTop isBottom => exact .inl ⟨rfl, _, _, isTop, isBottom, rfl⟩
      | rightBus isTop isBottom => exact .inr (.inl ⟨rfl, _, _, isTop, isBottom, rfl⟩)
  | @part _ part _ index inner _ found isMark =>
      have moved := inStack _ found rfl (.inr (.inr ⟨inner, isMark, rfl⟩))
      rw [Wire.shifted_shifted] at moved
      simp only [partCorner, isGroup, branchCorner]
      convert moved using 2
      apply Point.eq_of_coordinates <;> simp

include roomy clean agree isParallel in
theorem within_branch {index : Nat} {part : Measure Rat}
    (found : measure.parts[index]? = some part) :
    Within 10 (part.extent.height - 10)
      (partPictures settings measure labels
        (branchPicture settings measure.extent labels) index) := by
  rintro wire label ⟨other, otherFound, isMark⟩
  obtain rfl : other = part := Option.some_inj.mp (otherFound.symm.trans found)
  have partRoomy := roomy other (List.mem_of_getElem? found)
  have sameParts : measure.circuit.parts = measure.parts.map Measure.circuit := by
    rw [isParallel, Circuit.parts]
  exact (Clean.part clean agree sameParts found).2.widened (by linarith [partRoomy.high])
    (by linarith [partRoomy.high]) isMark

include isParallel nonnegative measured roomy clean agree in
theorem tidy_stack :
    Tidy measure.extent.width (labels [] .left) (labels [] .right)
      (stackPicture settings measure labels) := by
  have sameParts : measure.circuit.parts = measure.parts.map Measure.circuit := by
    rw [isParallel, Circuit.parts]
  have agreeParallel : labels.Agree (.parallel (measure.parts.map Measure.circuit)) :=
    isParallel ▸ agree
  have sameLabel : ∀ side index, index < measure.parts.length →
      labels [index] side = labels [] side := fun side index indexLt =>
    (agreeParallel _ _ _ _ (.branch side (by simpa using indexLt))).symm
  obtain ⟨-, narrow, -⟩ := parallelExtent_isRoomy nonnegative measured (roomy_extents roomy)
  refine Tidy.stack (fun index indexLt => ?_) (fun _ => rfl) ?_
  · have found := List.getElem?_eq_getElem indexLt
    have isPart := List.mem_of_getElem? found
    have partTidy := (Clean.part clean agree sameParts found).1
    rw [sameLabel .left index indexLt, sameLabel .right index indexLt] at partTidy
    obtain ⟨indentLow, indentHigh⟩ := branchIndent_bounds settings.branchAlignment
      (narrow _ (List.mem_map_of_mem isPart))
    exact tidy_partPictures found
      (partTidy.widened indentLow indentHigh (by linarith [(roomy _ isPart).wide]) _)
  · intro low high before highLt one oneLabel other otherLabel isOne isOther point isEnd
      otherPoint isOtherEnd
    obtain ⟨stop, isStop, rfl⟩ := Wire.mem_ends_shifted.mp isEnd
    obtain ⟨otherStop, isOtherStop, rfl⟩ := Wire.mem_ends_shifted.mp isOtherEnd
    have lowFound := List.getElem?_eq_getElem (before.trans highLt)
    have highFound := List.getElem?_eq_getElem highLt
    have lowBottom := (within_branch isParallel roomy clean agree lowFound isOne stop isStop).2
    have highTop :=
      (within_branch isParallel roomy clean agree highFound isOther otherStop isOtherStop).1
    have gap := (startOf_branch nonnegative (centred_extents roomy)
      (Measure.extents_getElem? lowFound)).2.1 high before
    simp only [Axis.of, Point.add_y]
    linarith

include nonnegative measured roomy in
theorem isTap_bounds {height : Rat} {port : BranchSlot Rat → Point Rat}
    (isPort : port = BranchSlot.leftPort ∨ port = BranchSlot.rightPort)
    (isTap : IsTap settings measure port height) :
    10 ≤ height ∧ height ≤ measure.extent.height - 10 := by
  obtain ⟨groupRoomy, -, heights⟩ :=
    parallelExtent_isRoomy nonnegative measured (roomy_extents roomy)
  have high := groupRoomy.high
  rcases exists_tap groupRoomy.isCentred (centred_extents roomy) isPort isTap with
    rfl | ⟨index, branch, found, rfl⟩
  · constructor <;> linarith
  · have branchHigh := (roomy_extents roomy branch (List.mem_of_getElem? found)).high
    obtain ⟨top, -, bottom⟩ := startOf_branch nonnegative (centred_extents roomy) found
    constructor <;> linarith

include isParallel nonnegative measured roomy clean agree in
theorem within_group :
    Within 10 (measure.extent.height - 10) (groupPicture settings measure labels) := by
  obtain ⟨-, -, heights⟩ := parallelExtent_isRoomy nonnegative measured (roomy_extents roomy)
  rintro wire label (⟨-, top, bottom, isTop, isBottom, rfl⟩ |
    ⟨-, top, bottom, isTop, isBottom, rfl⟩ | ⟨index, indexLt, inner, isMark, rfl⟩) point isEnd
  · simp only [Wire.ends, List.mem_cons, List.not_mem_nil, or_false] at isEnd
    rcases isEnd with rfl | rfl
    · exact isTap_bounds nonnegative measured roomy (.inl rfl) isTop
    · exact isTap_bounds nonnegative measured roomy (.inl rfl) isBottom
  · simp only [Wire.ends, List.mem_cons, List.not_mem_nil, or_false] at isEnd
    rcases isEnd with rfl | rfl
    · exact isTap_bounds nonnegative measured roomy (.inr rfl) isTop
    · exact isTap_bounds nonnegative measured roomy (.inr rfl) isBottom
  · obtain ⟨stop, isStop, rfl⟩ := Wire.mem_ends_shifted.mp isEnd
    have found := List.getElem?_eq_getElem indexLt
    obtain ⟨top, bottom⟩ := within_branch isParallel roomy clean agree found isMark stop isStop
    obtain ⟨start, -, finish⟩ := startOf_branch nonnegative (centred_extents roomy)
      (Measure.extents_getElem? found)
    have gap := nonnegative.parallelSpacing
    simp only [Point.add_y]
    constructor <;> linarith

end

theorem clean_parallel
    (isParallel : measure.circuit = .parallel (measure.parts.map Measure.circuit))
    (nonnegative : settings.IsNonnegative)
    (measured : parallelExtent settings measure.circuit measure.extents = .ok measure.extent)
    (roomy : ∀ part ∈ measure.parts, part.extent.IsRoomy)
    (clean : ∀ part ∈ measure.parts, Clean settings part) : Clean settings measure := by
  intro Label labels agree
  obtain ⟨groupRoomy, -, -⟩ := parallelExtent_isRoomy nonnegative measured (roomy_extents roomy)
  have tidy := (tidy_stack isParallel nonnegative measured roomy clean agree).withBuses
    (by linarith [groupRoomy.wide]) (IsTap settings measure BranchSlot.leftPort)
    (IsTap settings measure BranchSlot.rightPort)
  have within := within_group isParallel nonnegative measured roomy clean agree
  exact ⟨tidy.mono (marks_parallel isParallel roomy), within.mono (marks_parallel isParallel roomy)⟩

/-- The picture of every part is tidy. -/
theorem Measure.Sized.clean (sized : measure.Sized SymbolLibrary.standard settings)
    (nonnegative : settings.IsNonnegative) : Clean settings measure := by
  induction sized with
  | element known =>
      exact clean_element rfl ((Sized.element known).isRoomy nonnegative) rfl
  | series two parts measured ih =>
      refine clean_series (seriesExtent_circuit measured) ?_ ?_ (fun part isPart =>
        (parts part isPart).isRoomy nonnegative) ih
      · rintro rfl
        simp at two
      · rw [Measure.circuit, Measure.extent, seriesExtent_circuit measured]
        exact measured
  | parallel two parts measured ih =>
      refine clean_parallel (parallelExtent_circuit measured) nonnegative ?_ (fun part isPart =>
        (parts part isPart).isRoomy nonnegative) ih
      rw [Measure.circuit, Measure.extent, parallelExtent_circuit measured]
      exact measured

end Schematic
