import Schematic.Proofs.Connectivity.Faithful

/-!
# Wires with the labels of their ends

If points have labels that are the same at both ends of every wire, then every
terminal of a circuit gets the label of its point, and every wire belongs to a
terminal that has the label of the wire's own ends.
-/

namespace Schematic

open Schematic.Alignment (Side)

variable {Label : Type} {settings : LayoutSettings Rat} {measure : Measure Rat}
  {frame : Frame Rat} {layout : Layout Rat}

/-- Both ends of every wire have the same label. -/
def Layout.Respects (layout : Layout Rat) (labelOf : Point Rat → Label) : Prop :=
  ∀ wire ∈ layout.allWires, labelOf wire.start = labelOf wire.finish

def Layout.pointLabels (layout : Layout Rat) (labelOf : Point Rat → Label) : PortLabels Label :=
  fun path side => labelOf (layout.portAt path side)

/-- Every wire of a layout is in a picture, with the label of its own ends. -/
def OwnLabels (layout : Layout Rat) (frame : Frame Rat) (labelOf : Point Rat → Label)
    (picture : Picture Label) : Prop :=
  ∀ wire ∈ layout.allWires, ∃ inner, picture inner (labelOf wire.start) ∧ wire = frame.image inner

theorem Layout.Respects.child {child : Layout Rat} {labelOf : Point Rat → Label}
    (respects : layout.Respects labelOf) (isChild : child ∈ layout.children) :
    child.Respects labelOf :=
  fun wire isWire => respects wire (mem_allWires_of_child isChild isWire)

theorem Wired.label_eq {labelOf : Point Rat → Label} (respects : layout.Respects labelOf)
    {first second : Point Rat} (wired : Wired layout.allWires first second) :
    labelOf first = labelOf second := by
  induction wired with
  | rel first second isWire => exact respects ⟨first, second⟩ isWire
  | refl => rfl
  | symm _ _ _ ih => exact ih.symm
  | trans _ _ _ _ _ ihFirst ihSecond => exact ihFirst.trans ihSecond

variable {labelOf : Point Rat → Label}

/-! ## Groups -/

/-- A stub or a bus belongs to the end of its group on its side. -/
theorem groupWire_label {branches : List Circuit}
    (isParallel : measure.circuit = .parallel branches) (groupRoomy : measure.extent.IsRoomy)
    (respects : (measure.place settings frame).Respects labelOf) {side : Side} {inner : Wire Rat}
    (isGroupWire : GroupWire measure.extent
      (branchSlots settings measure.extent.width Scalar.zero measure.extents) side inner)
    (isWire : frame.image inner ∈ (measure.place settings frame).allWires) :
    labelOf (frame.image inner).start =
      (measure.place settings frame).pointLabels labelOf [] side := by
  obtain ⟨leftBus, rightBus⟩ := @wired_taps settings measure frame branches isParallel groupRoomy
  cases isGroupWire with
  | leftStub isSlot =>
      exact (leftBus _ (mem_busTaps.mpr (.inr
        (List.mem_map_of_mem (f := fun slot => slot.leftPort.y) isSlot)))).label_eq respects
  | rightStub isSlot =>
      rw [respects _ isWire]
      exact (rightBus _ (mem_busTaps.mpr (.inr
        (List.mem_map_of_mem (f := fun slot => slot.rightPort.y) isSlot)))).label_eq respects
  | leftBus isTop _ => exact (leftBus _ isTop).label_eq respects
  | rightBus isTop _ => exact (rightBus _ isTop).label_eq respects

theorem ownLabels_group (isGroup : measure.circuit.IsGroup) (groupRoomy : measure.extent.IsRoomy)
    (each : ∀ part ∈ measure.parts, ∀ frame, (part.place settings frame).Respects labelOf →
      OwnLabels (part.place settings frame) frame labelOf
        (Marks settings part ((part.place settings frame).pointLabels labelOf)))
    (respects : (measure.place settings frame).Respects labelOf) :
    OwnLabels (measure.place settings frame) frame labelOf
      (Marks settings measure ((measure.place settings frame).pointLabels labelOf)) := by
  intro wire isWire
  rcases Layout.mem_allWires_iff.mp isWire with isOwn | ⟨child, isChild, inChild⟩
  · rw [Measure.place_placement] at isOwn
    rcases isGroup with ⟨members, isSeries⟩ | ⟨branches, isParallel⟩
    · have isSeries' : measure.extent.circuit = .series members := isSeries
      rw [placement, isSeries'] at isOwn
      cases isOwn
    · have isParallel' : measure.extent.circuit = .parallel branches := isParallel
      rw [placement, isParallel'] at isOwn
      obtain ⟨side, inner, isGroupWire, rfl⟩ := mem_parallelWires isOwn
      rw [groupWire_label isParallel groupRoomy respects isGroupWire isWire]
      exact ⟨inner, .own isParallel isGroupWire, rfl⟩
  · have childRespects := respects.child isChild
    obtain ⟨index, foundChild⟩ := List.mem_iff_getElem?.mp isChild
    have found := foundChild
    rw [place_group_child isGroup, Option.map_eq_some_iff] at found
    obtain ⟨part, foundPart, rfl⟩ := found
    have sameLabels : ((measure.place settings frame).pointLabels labelOf).within index =
        (part.place settings (frame.shifted (partCorner settings measure.extent measure.extents
          index part.extent))).pointLabels labelOf := by
      funext path side
      exact congrArg labelOf (Layout.portAt_cons foundChild path side)
    obtain ⟨inner, isMark, rfl⟩ := each part (List.mem_of_getElem? foundPart) _ childRespects wire
      inChild
    rw [← sameLabels] at isMark
    exact ⟨_, .part foundPart isMark, frame.image_shifted _ inner⟩

theorem Measure.Sized.ownLabels (sized : measure.Sized SymbolLibrary.standard settings)
    (nonnegative : settings.IsNonnegative) (frame : Frame Rat)
    (respects : (measure.place settings frame).Respects labelOf) :
    OwnLabels (measure.place settings frame) frame labelOf
      (Marks settings measure ((measure.place settings frame).pointLabels labelOf)) := by
  induction sized generalizing frame with
  | element known =>
      intro wire isWire
      rcases Layout.mem_allWires_iff.mp isWire with isOwn | ⟨child, isChild, -⟩
      · cases isOwn
      · cases isChild
  | series two parts measured ih =>
      exact ownLabels_group (isGroup_series measured)
        ((Sized.series two parts measured).isRoomy nonnegative) ih respects
  | parallel two parts measured ih =>
      exact ownLabels_group (isGroup_parallel measured)
        ((Sized.parallel two parts measured).isRoomy nonnegative) ih respects

/-! ## Twoports -/

section

variable {links : List (Link Circuit)} {parts : List (Measure Rat)} {index : Nat}
  {link : Link Circuit} {part : Measure Rat}

/-- A wire in a slot has an end where the link of the slot meets the signal line or
the rail. -/
theorem rungWire_meets {lines : TwoportLines Rat} {slot : LinkSlot Rat} {grounded : Bool}
    {wire : Wire Rat} (isWire : RungWire lines slot grounded wire) :
    ⟨slot.stop, if grounded then lines.rail else lines.signal⟩ ∈ wire.ends := by
  have middle : slot.kind = .shunt → slot.stop = slot.middle := by
    intro isShunt
    rw [LinkSlot.stop, isShunt]
  cases isWire with
  | upper isShunt => simp [Wire.ends, middle isShunt]
  | lower isShunt => simp [Wire.ends, middle isShunt]
  | signal _ _ _ meets => rcases meets with rfl | rfl <;> simp [Wire.ends]
  | rail _ _ meets => rcases meets with rfl | rfl <;> simp [Wire.ends]

theorem rungWire_label (sameLength : parts.length = links.length)
    (respects : (networkLayout settings links parts frame).Respects labelOf)
    (foundLink : links[index]? = some link) (foundPart : parts[index]? = some part)
    {grounded : Bool} {inner : Wire Rat}
    (isRungWire : RungWire (ladderLines settings links parts)
      (rungSlot settings links parts index link.kind part.extent) grounded inner)
    (isWire : frame.image inner ∈ (networkLayout settings links parts frame).allWires) :
    labelOf (frame.image inner).start =
      labelOf (terminalPoint settings links parts frame (rungTerminal links index grounded)) := by
  have inRange := (List.getElem?_eq_some_iff.mp foundLink).1
  have meets := rungWire_meets isRungWire
  rw [rungSlot_stop foundLink foundPart] at meets
  -- The terminal is at one end of the wire, but a mark has the label of its start.
  have atStart : ∀ point ∈ inner.ends,
      labelOf (frame.image inner).start = labelOf (frame.point point) := by
    intro point isEnd
    simp only [Wire.ends, List.mem_cons, List.not_mem_nil, or_false] at isEnd
    rcases isEnd with rfl | rfl
    · rfl
    · exact respects _ isWire
  rw [atStart _ meets]
  cases grounded with
  | false => exact (wired_signalSpot sameLength inRange).label_eq respects
  | true => exact ((wired_rail sameLength inRange).label_eq respects).symm

/-- Every wire of a twoport is in its picture, with the label of its own ends. -/
theorem ownLabels_network (nonnegative : settings.IsNonnegative)
    (sameLength : parts.length = links.length) (roomy : ∀ part ∈ parts, part.extent.IsRoomy)
    (each : ∀ part ∈ parts, ∀ frame, (part.place settings frame).Respects labelOf →
      OwnLabels (part.place settings frame) frame labelOf
        (Marks settings part ((part.place settings frame).pointLabels labelOf)))
    (respects : (networkLayout settings links parts frame).Respects labelOf) :
    OwnLabels (networkLayout settings links parts frame) frame labelOf
      (ladderPicture settings links parts
        fun terminal => labelOf (terminalPoint settings links parts frame terminal)) := by
  have isTwoport : (Measure.network settings links parts).extent.circuit = .twoport links := rfl
  intro wire isWire
  rcases Layout.mem_allWires_iff.mp isWire with isOwn | ⟨child, isChild, inChild⟩
  · rw [Measure.place_placement, twoport_wires isTwoport, mem_slotWires] at isOwn
    obtain ⟨index, slot, foundSlot, isOwn⟩ := isOwn
    rw [linkSlots_getElem?_zero, Option.map_eq_some_iff] at foundSlot
    obtain ⟨rung, foundRung, rfl⟩ := foundSlot
    obtain ⟨link, part, foundLink, foundPart, rfl⟩ := rungs_getElem?.mp foundRung
    obtain ⟨grounded, inner, isRungWire, rfl⟩ := LinkSlot.exists_rungWire isOwn
    rw [rungWire_label sameLength respects foundLink foundPart isRungWire isWire]
    exact ⟨inner, mem_ladder_wire nonnegative (roomy part (List.mem_of_getElem? foundPart))
      foundLink foundPart isRungWire, rfl⟩
  · have childRespects := respects.child isChild
    obtain ⟨index, foundChild⟩ := List.mem_iff_getElem?.mp isChild
    obtain ⟨link, part, foundLink, foundPart, rfl⟩ := place_network_child.mp foundChild
    have isPart := List.mem_of_getElem? foundPart
    obtain ⟨inner, isMark, rfl⟩ := each part isPart _ childRespects wire inChild
    have sameLabels : (portLabels fun terminal =>
        labelOf (terminalPoint settings links parts frame terminal)).within index =
          (part.place settings (rungFrame settings links parts frame index link.kind
            part.extent)).pointLabels labelOf := by
      funext path side
      exact congrArg labelOf (Layout.portAt_cons foundChild path side)
    rw [← sameLabels] at isMark
    refine ⟨_, mem_ladder_target (roomy part isPart) foundLink foundPart isMark, ?_⟩
    simp only [Frame.image, Frame.wire, rungFrame_point]

end

/-! ## Wires that meet -/

/-- The picture of a circuit gives every wire the label of its own ends, and keeps
different labels apart. -/
theorem Measure.SizedRoot.exists_ownLabels
    (sized : measure.SizedRoot SymbolLibrary.standard settings)
    (nonnegative : settings.IsNonnegative) (frame : Frame Rat)
    (respects : (measure.place settings frame).Respects labelOf) :
    ∃ picture, Network.Separated picture ∧
      OwnLabels (measure.place settings frame) frame labelOf picture := by
  cases sized with
  | part sized =>
      have agree : ((measure.place settings frame).pointLabels labelOf).Agree measure.circuit :=
        fun _ _ _ _ tie => (sized.connects nonnegative frame _ _ _ _ tie).label_eq respects
      exact ⟨_, (sized.clean nonnegative Label _ agree).1.separated,
        sized.ownLabels nonnegative frame respects⟩
  | @twoport links parts sized sameParts =>
      have roomy : ∀ part ∈ parts, part.extent.IsRoomy := fun part isPart =>
        (sized part isPart).isRoomy nonnegative
      have sameLength : parts.length = links.length := by
        simpa using congrArg List.length sameParts
      have agree : ∀ first second, (Circuit.twoport links).Tie first second →
          labelOf (terminalPoint settings links parts frame first) =
            labelOf (terminalPoint settings links parts frame second) := fun first second tie =>
        (network_connects sameParts roomy (fun part isPart =>
          (sized part isPart).connects nonnegative) tie).label_eq respects
      exact ⟨_, separated_ladder nonnegative roomy
          (fun part isPart => (sized part isPart).clean nonnegative) sameParts agree,
        ownLabels_network nonnegative sameLength roomy (fun part isPart frame =>
          (sized part isPart).ownLabels nonnegative frame) respects⟩

end Schematic
