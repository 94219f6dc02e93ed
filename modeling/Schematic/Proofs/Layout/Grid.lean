import Schematic.Proofs.Layout.Centred
import Schematic.Proofs.Layout.Walk
import Schematic.Proofs.Layout.Wiring
import Schematic.Proofs.Number.Halves

/-!
# Layouts on the half-unit grid

If all distances are whole numbers, then a layout has no other coordinates than
multiples of one half.  What is halved is always a size, and the size of every
part is a whole number again: the height of a series group is that of its
highest member, although it is put together from halves.
-/

namespace Schematic

open Number (wholes halves mem_halves_of_mem_wholes half_mem_halves)

/-! ## Points and frames -/

/-- Both coordinates are multiples of one half. -/
structure Point.IsOnGrid (point : Point Rat) : Prop where
  x : point.x ∈ halves
  y : point.y ∈ halves

/-- Both ends of the wire are on the grid. -/
structure Wire.IsOnGrid (wire : Wire Rat) : Prop where
  start : wire.start.IsOnGrid
  finish : wire.finish.IsOnGrid

theorem Point.IsOnGrid.transposed {point : Point Rat} (onGrid : point.IsOnGrid) :
    point.transposed.IsOnGrid :=
  ⟨onGrid.y, onGrid.x⟩

theorem Point.IsOnGrid.add {first second : Point Rat} (firstOnGrid : first.IsOnGrid)
    (secondOnGrid : second.IsOnGrid) : (first + second).IsOnGrid :=
  ⟨halves.add_mem firstOnGrid.x secondOnGrid.x, halves.add_mem firstOnGrid.y secondOnGrid.y⟩

section

variable {frame : Frame Rat} (onGrid : frame.origin.IsOnGrid)

theorem Frame.offset_isOnGrid (frame : Frame Rat) {point : Point Rat}
    (pointOnGrid : point.IsOnGrid) : (frame.offset point).IsOnGrid := by
  unfold Frame.offset
  split
  · exact pointOnGrid.transposed
  · exact pointOnGrid

include onGrid

theorem Frame.point_isOnGrid {point : Point Rat} (pointOnGrid : point.IsOnGrid) :
    (frame.point point).IsOnGrid :=
  onGrid.add (frame.offset_isOnGrid pointOnGrid)

theorem Frame.isOnGrid_of_mem_connect {start finish : Point Rat} {wire : Wire Rat}
    (isWire : wire ∈ frame.connect start finish) (startOnGrid : start.IsOnGrid)
    (finishOnGrid : finish.IsOnGrid) : wire.IsOnGrid := by
  obtain rfl := (frame.mem_connect.mp isWire).2
  exact ⟨point_isOnGrid onGrid startOnGrid, point_isOnGrid onGrid finishOnGrid⟩

end

/-! ## Sizes -/

/-- All distances of the settings are whole numbers. -/
structure LayoutSettings.IsWhole (settings : LayoutSettings Rat) : Prop where
  parallelSpacing : settings.parallelSpacing ∈ wholes
  shuntStub : settings.shuntStub ∈ wholes
  shuntLead : settings.shuntLead ∈ wholes
  railClearance : settings.railClearance ∈ wholes
  originX : settings.originX ∈ wholes
  originY : settings.originY ∈ wholes

/-- The size is a whole number along both axes, and the ports are at half the
height. -/
structure Extent.IsWhole (extent : Extent Rat) : Prop extends extent.HasCentredPorts where
  width : extent.width ∈ wholes
  height : extent.height ∈ wholes

/-- All symbols in use have whole sizes and centred ports. -/
def SymbolLibrary.IsWhole (symbols : SymbolLibrary Rat) : Prop :=
  ∀ kind symbol, symbols kind = some symbol → ∀ element, (symbol.extent element).IsWhole

theorem SymbolLibrary.standard_isWhole : (SymbolLibrary.standard : SymbolLibrary Rat).IsWhole := by
  intro kind symbol known element
  obtain rfl : Symbol.standard kind = symbol := Option.some_inj.mp known
  have whole : (Symbol.standard kind : Symbol Rat).width ∈ wholes ∧
      (Symbol.standard kind : Symbol Rat).height ∈ wholes := by
    cases kind <;> exact ⟨Number.natCast_mem_wholes _, Number.natCast_mem_wholes _⟩
  have centred := (SymbolLibrary.standard_isCentred kind _ rfl).extent element
  exact ⟨centred.hasCentredPorts, whole.1, whole.2⟩

section

variable {group : AddSubgroup Rat}

theorem largest_mem {first : Rat} {rest : List Rat}
    (members : ∀ value ∈ first :: rest, value ∈ group) : Scalar.largest first rest ∈ group :=
  members _ (Scalar.largest_spec first rest).1

theorem largestOr_mem {values : List Rat} (members : ∀ value ∈ values, value ∈ group) :
    Scalar.largestOr Scalar.zero values ∈ group := by
  cases values with
  | nil => exact group.zero_mem
  | cons first rest => exact largest_mem members

theorem larger_mem {first second : Rat} (isFirst : first ∈ group) (isSecond : second ∈ group) :
    Scalar.larger first second ∈ group := by
  rw [Scalar.larger_eq]
  rcases max_choice first second with same | same
  · rwa [same]
  · rwa [same]

theorem startOf_mem {lengths : List Rat} (members : ∀ length ∈ lengths, length ∈ group)
    (index : Nat) : startOf lengths index ∈ group :=
  list_sum_mem fun length isMember => members length (List.mem_of_mem_take isMember)

end

variable {symbols : SymbolLibrary Rat} {settings : LayoutSettings Rat} {circuit : Circuit}
  {extent : Extent Rat} {extents : List (Extent Rat)}

/-- The height of a series group is a whole number, because it is the height of
a member. -/
theorem seriesExtent_isWhole (measured : seriesExtent circuit extents = .ok extent)
    (whole : ∀ member ∈ extents, member.IsWhole) : extent.IsWhole := by
  obtain ⟨ports, -, highest, isHighest, same⟩ := seriesExtent_hasCentredPorts measured
    fun member isMember => (whole member isMember).toHasCentredPorts
  refine ⟨ports, ?_, same ▸ (whole highest isHighest).height⟩
  rw [seriesExtent_width measured]
  exact list_sum_mem <| List.forall_mem_map.mpr fun member isMember =>
    (whole member isMember).width

theorem parallelExtent_isWhole (spacing : settings.parallelSpacing ∈ wholes)
    (measured : parallelExtent settings circuit extents = .ok extent)
    (whole : ∀ branch ∈ extents, branch.IsWhole) : extent.IsWhole := by
  have widths : ∀ width ∈ extents.map Extent.width, width ∈ wholes :=
    List.forall_mem_map.mpr fun branch isBranch => (whole branch isBranch).width
  have heights : ∀ height ∈ extents.map Extent.height, height ∈ wholes :=
    List.forall_mem_map.mpr fun branch isBranch => (whole branch isBranch).height
  cases extents with
  | nil => cases measured
  | cons first rest =>
      cases measured
      refine ⟨⟨rfl, rfl⟩, largest_mem widths, wholes.add_mem ?_ ?_⟩
      · rw [Scalar.sum_eq]
        exact list_sum_mem heights
      · exact Number.mul_mem_wholes spacing (Number.natCast_mem_wholes rest.length)

/-- Every part has a whole size. -/
theorem Measure.Sized.isWhole {measure : Measure Rat} (sized : measure.Sized symbols settings)
    (symbolsWhole : symbols.IsWhole) (settingsWhole : settings.IsWhole) :
    measure.extent.IsWhole := by
  induction sized with
  | element known => exact symbolsWhole _ _ known _
  | series two parts measured ih =>
      exact seriesExtent_isWhole measured (List.forall_mem_map.mpr ih)
  | parallel two parts measured ih =>
      exact parallelExtent_isWhole settingsWhole.parallelSpacing measured
        (List.forall_mem_map.mpr ih)

/-! ## Placed circuits -/

/-- Everything that a placed circuit says about its place is a multiple of one
half, and the size of what is not a twoport a whole number. -/
structure Placement.IsOnGrid (placement : Placement Rat) : Prop where
  origin : placement.origin.IsOnGrid
  size : (⟨placement.width, placement.height⟩ : Point Rat).IsOnGrid
  whole : (∀ links, placement.circuit ≠ .twoport links) →
    placement.width ∈ wholes ∧ placement.height ∈ wholes
  leftPort : placement.leftPort.IsOnGrid
  rightPort : placement.rightPort.IsOnGrid
  wires : ∀ wire ∈ placement.wires, wire.IsOnGrid
  leftBus : ∀ bus ∈ placement.leftBus, bus ∈ halves
  rightBus : ∀ bus ∈ placement.rightBus, bus ∈ halves
  rail : ∀ rail ∈ placement.rail, rail ∈ halves

/-- The box and the ports are on the grid, and the box is a whole one unless it is
that of a twoport. -/
structure Extent.IsOnGrid (extent : Extent Rat) : Prop where
  size : (⟨extent.width, extent.height⟩ : Point Rat).IsOnGrid
  whole : (∀ links, extent.circuit ≠ .twoport links) →
    extent.width ∈ wholes ∧ extent.height ∈ wholes
  leftPort : extent.leftPort.IsOnGrid
  rightPort : extent.rightPort.IsOnGrid

theorem Extent.IsWhole.isOnGrid (whole : extent.IsWhole) : extent.IsOnGrid where
  size := ⟨mem_halves_of_mem_wholes whole.width, mem_halves_of_mem_wholes whole.height⟩
  whole := fun _ => ⟨whole.width, whole.height⟩
  leftPort := whole.left ▸ ⟨halves.zero_mem, half_mem_halves whole.height⟩
  rightPort := whole.right ▸ ⟨mem_halves_of_mem_wholes whole.width, half_mem_halves whole.height⟩

variable {frame : Frame Rat} (onGrid : frame.origin.IsOnGrid)

include onGrid

theorem barePlacement_isOnGrid (extentOnGrid : extent.IsOnGrid) :
    (barePlacement extent frame).IsOnGrid where
  origin := onGrid
  size := frame.offset_isOnGrid extentOnGrid.size
  whole := by
    intro noTwoport
    obtain ⟨width, height⟩ := extentOnGrid.whole noTwoport
    simp only [barePlacement, Frame.offset]
    split
    · exact ⟨height, width⟩
    · exact ⟨width, height⟩
  leftPort := frame.offset_isOnGrid extentOnGrid.leftPort
  rightPort := frame.offset_isOnGrid extentOnGrid.rightPort
  wires := nofun
  leftBus := nofun
  rightBus := nofun
  rail := nofun

theorem alongSignal_mem {point : Point Rat} (pointOnGrid : point.IsOnGrid) :
    alongSignal frame point ∈ halves := by
  have inDrawing := Frame.point_isOnGrid onGrid pointOnGrid
  unfold alongSignal
  simp only
  split
  · exact inDrawing.y
  · exact inDrawing.x

omit onGrid

/-! ### Parallel groups -/

section

variable (settingsWhole : settings.IsWhole) (partsWhole : ∀ part ∈ extents, part.IsWhole)

include settingsWhole partsWhole

theorem branchCorner_isOnGrid {width : Rat} (wide : width ∈ wholes) (index : Nat)
    {branch : Extent Rat} (isBranch : branch ∈ extents) :
    (branchCorner settings width extents index branch).IsOnGrid := by
  constructor
  · simp only [branchCorner, branchIndent]
    split
    · exact half_mem_halves (wholes.sub_mem wide (partsWhole branch isBranch).width)
    · exact halves.zero_mem
  · refine startOf_mem (List.forall_mem_map.mpr fun other isOther => ?_) index
    exact mem_halves_of_mem_wholes
      (wholes.add_mem (partsWhole other isOther).height settingsWhole.parallelSpacing)

theorem branchSlot_isOnGrid {width : Rat} (wide : width ∈ wholes) {slot : BranchSlot Rat}
    (isSlot : slot ∈ branchSlots settings width Scalar.zero extents) :
    slot.leftPort.IsOnGrid ∧ slot.rightPort.IsOnGrid := by
  obtain ⟨index, branch, found, rfl⟩ := mem_branchSlots.mp isSlot
  have isBranch := List.mem_of_getElem? found
  have corner := branchCorner_isOnGrid settingsWhole partsWhole wide index isBranch
  have branchOnGrid := (partsWhole branch isBranch).isOnGrid
  exact ⟨⟨corner.x, halves.add_mem corner.y branchOnGrid.leftPort.y⟩,
    ⟨halves.add_mem corner.x branchOnGrid.size.x,
      halves.add_mem corner.y branchOnGrid.rightPort.y⟩⟩

include onGrid

theorem parallelWires_isOnGrid (extentOnGrid : extent.IsOnGrid) (whole : extent.width ∈ wholes) :
    ∀ wire ∈ parallelWires frame extent (branchSlots settings extent.width Scalar.zero extents),
      wire.IsOnGrid := by
  have wide := mem_halves_of_mem_wholes whole
  have port := extentOnGrid.leftPort.y
  have ends := fun slot => @branchSlot_isOnGrid _ _ settingsWhole partsWhole _ whole slot
  have bus : ∀ (x : Rat) (branchPorts : List Rat), x ∈ halves →
      (∀ branchPort ∈ branchPorts, branchPort ∈ halves) →
      ∀ wire ∈ busWires frame x (busTaps extent.leftPort.y branchPorts), wire.IsOnGrid := by
    intro x branchPorts onBus portsOnGrid wire isWire
    have taps : ∀ tap ∈ busTaps extent.leftPort.y branchPorts, tap ∈ halves := by
      intro tap isTap
      rcases mem_busTaps.mp isTap with rfl | isPort
      · exact port
      · exact portsOnGrid tap isPort
    obtain ⟨top, isTop, bottom, isBottom, connected⟩ := exists_taps_of_mem_busWires isWire
    exact Frame.isOnGrid_of_mem_connect onGrid connected ⟨onBus, taps top isTop⟩
      ⟨onBus, taps bottom isBottom⟩
  intro wire isWire
  simp only [parallelWires, BranchSlot.stubs, List.mem_append, List.mem_flatMap] at isWire
  rcases isWire with (⟨slot, isSlot, left | right⟩ | leftBus) | rightBus
  · exact Frame.isOnGrid_of_mem_connect onGrid left ⟨halves.zero_mem, (ends slot isSlot).1.y⟩
      (ends slot isSlot).1
  · exact Frame.isOnGrid_of_mem_connect onGrid right (ends slot isSlot).2
      ⟨wide, (ends slot isSlot).2.y⟩
  · exact bus _ _ halves.zero_mem (List.forall_mem_map.mpr fun slot isSlot =>
      (ends slot isSlot).1.y) wire leftBus
  · exact bus _ _ wide (List.forall_mem_map.mpr fun slot isSlot => (ends slot isSlot).2.y) wire
      rightBus

end

/-! ### Twoports -/

/-- The lines of a twoport are at multiples of one half. -/
structure TwoportLines.IsOnGrid (lines : TwoportLines Rat) : Prop where
  signal : lines.signal ∈ halves
  shuntTop : lines.shuntTop ∈ halves
  rail : lines.rail ∈ halves

/-- The slot of a whole target, which starts and ends at whole numbers. -/
structure LinkSlot.IsWhole (slot : LinkSlot Rat) : Prop where
  target : slot.target.IsWhole
  start : slot.start ∈ wholes
  width : slot.width ∈ wholes

section

variable {links : List (LinkKind × Extent Rat)} (settingsWhole : settings.IsWhole)
  (targetsWhole : ∀ link ∈ links, link.2.IsWhole)

include settingsWhole targetsWhole

theorem slotWidth_mem {link : LinkKind × Extent Rat} (isLink : link ∈ links) :
    slotWidth settings link ∈ wholes := by
  have target := targetsWhole link isLink
  unfold slotWidth
  split
  · exact target.width
  · exact larger_mem settingsWhole.shuntStub target.height

theorem linkSlot_isWhole {slot : LinkSlot Rat}
    (isSlot : slot ∈ linkSlots settings Scalar.zero links) : slot.IsWhole := by
  obtain ⟨index, found⟩ := List.mem_iff_getElem?.mp isSlot
  rw [linkSlots_getElem?_zero, Option.map_eq_some_iff] at found
  obtain ⟨link, foundLink, rfl⟩ := found
  have isLink := List.mem_of_getElem? foundLink
  exact ⟨targetsWhole link isLink,
    startOf_mem (List.forall_mem_map.mpr fun _ => slotWidth_mem settingsWhole targetsWhole) index,
    slotWidth_mem settingsWhole targetsWhole isLink⟩

theorem twoportLines_isOnGrid : (twoportLines settings links).IsOnGrid := by
  have targets : ∀ kind, ∀ target ∈ targetsOf kind links, target.IsWhole :=
    fun kind target isTarget => targetsWhole (kind, target) (mem_targetsOf.mp isTarget)
  have signal : (twoportLines settings links).signal ∈ halves :=
    largestOr_mem <| List.forall_mem_map.mpr fun target isTarget =>
      (targets .series target isTarget).isOnGrid.leftPort.y
  have descents : ∀ descent ∈ (targetsOf .series links).map Extent.descent, descent ∈ halves :=
    List.forall_mem_map.mpr fun target isTarget =>
      halves.sub_mem (targets .series target isTarget).isOnGrid.size.y
        (targets .series target isTarget).isOnGrid.leftPort.y
  have shuntTop : (twoportLines settings links).shuntTop ∈ halves :=
    halves.add_mem signal (mem_halves_of_mem_wholes settingsWhole.shuntLead)
  have widths : ∀ width ∈ (targetsOf .shunt links).map Extent.width, width ∈ halves :=
    List.forall_mem_map.mpr fun target isTarget =>
      (targets .shunt target isTarget).isOnGrid.size.x
  have lowest := halves.add_mem signal (largestOr_mem descents)
  have clearance := mem_halves_of_mem_wholes settingsWhole.railClearance
  refine ⟨signal, shuntTop, halves.add_mem ?_ clearance⟩
  generalize targetsOf .shunt links = shunts at widths
  cases shunts with
  | nil => exact lowest
  | cons first rest =>
      exact larger_mem lowest (halves.add_mem shuntTop (largest_mem widths))

theorem twoportExtent_isOnGrid (targets : List (Link Circuit)) :
    (twoportExtent settings (.twoport targets) links).IsOnGrid := by
  have lines := twoportLines_isOnGrid settingsWhole targetsWhole
  have width : Scalar.sum (links.map (slotWidth settings)) ∈ halves := by
    rw [Scalar.sum_eq]
    exact list_sum_mem <| List.forall_mem_map.mpr fun link isLink =>
      mem_halves_of_mem_wholes (slotWidth_mem settingsWhole targetsWhole isLink)
  exact ⟨⟨width, lines.rail⟩, fun noTwoport => absurd rfl (noTwoport targets),
    ⟨halves.zero_mem, lines.signal⟩, ⟨width, lines.signal⟩⟩

end

theorem LinkSlot.IsWhole.middle_mem {slot : LinkSlot Rat} (whole : slot.IsWhole) :
    slot.middle ∈ halves :=
  halves.add_mem (mem_halves_of_mem_wholes whole.start) (half_mem_halves whole.width)

section

variable {lines : TwoportLines Rat} (linesOnGrid : lines.IsOnGrid) {slot : LinkSlot Rat}
  (slotWhole : slot.IsWhole)

include slotWhole onGrid linesOnGrid

theorem LinkSlot.targetFrame_isOnGrid : (slot.targetFrame frame lines).origin.IsOnGrid := by
  have port := slotWhole.target.isOnGrid.leftPort.y
  unfold LinkSlot.targetFrame
  split
  · exact Frame.point_isOnGrid onGrid
      ⟨mem_halves_of_mem_wholes slotWhole.start, halves.sub_mem linesOnGrid.signal port⟩
  · exact Frame.point_isOnGrid onGrid
      ⟨halves.sub_mem slotWhole.middle_mem port, linesOnGrid.shuntTop⟩

omit slotWhole in
theorem LinkSlot.pair_isOnGrid {start finish : Rat} (startMem : start ∈ halves)
    (finishMem : finish ∈ halves) :
    ∀ wire ∈ LinkSlot.pair frame lines start finish, wire.IsOnGrid := by
  intro wire isWire
  rcases List.mem_append.mp isWire with signal | rail
  · exact Frame.isOnGrid_of_mem_connect onGrid signal ⟨startMem, linesOnGrid.signal⟩
      ⟨finishMem, linesOnGrid.signal⟩
  · exact Frame.isOnGrid_of_mem_connect onGrid rail ⟨startMem, linesOnGrid.rail⟩
      ⟨finishMem, linesOnGrid.rail⟩

theorem LinkSlot.wires_isOnGrid (isFirst isLast : Bool) :
    ∀ wire ∈ slot.wires frame lines isFirst isLast, wire.IsOnGrid := by
  have start := mem_halves_of_mem_wholes slotWhole.start
  have finish : slot.finish ∈ halves :=
    halves.add_mem start (mem_halves_of_mem_wholes slotWhole.width)
  have middle := slotWhole.middle_mem
  have bottom := halves.add_mem linesOnGrid.shuntTop slotWhole.target.isOnGrid.size.x
  intro wire isWire
  unfold LinkSlot.wires at isWire
  split at isWire
  · exact Frame.isOnGrid_of_mem_connect onGrid isWire ⟨start, linesOnGrid.rail⟩
      ⟨finish, linesOnGrid.rail⟩
  · simp only [List.mem_append] at isWire
    rcases isWire with ((top | low) | before) | after
    · exact Frame.isOnGrid_of_mem_connect onGrid top ⟨middle, linesOnGrid.signal⟩
        ⟨middle, linesOnGrid.shuntTop⟩
    · exact Frame.isOnGrid_of_mem_connect onGrid low ⟨middle, bottom⟩ ⟨middle, linesOnGrid.rail⟩
    · cases isFirst
      · exact LinkSlot.pair_isOnGrid onGrid linesOnGrid start middle wire before
      · cases before
    · cases isLast
      · exact LinkSlot.pair_isOnGrid onGrid linesOnGrid middle finish wire after
      · cases after

end

/-! ### All circuits -/

section

variable (settingsWhole : settings.IsWhole) (partsWhole : ∀ part ∈ extents, part.IsWhole)

include settingsWhole partsWhole onGrid

theorem placement_isOnGrid (extentOnGrid : extent.IsOnGrid) :
    (placement settings extent extents frame).IsOnGrid := by
  have bare := barePlacement_isOnGrid onGrid extentOnGrid
  unfold placement
  split
  · next branches isParallel =>
    have whole := extentOnGrid.whole fun links isTwoport => by
      rw [isParallel] at isTwoport
      cases isTwoport
    have port := extentOnGrid.leftPort.y
    exact {
      bare with
      wires := parallelWires_isOnGrid onGrid settingsWhole partsWhole extentOnGrid whole.1
      leftBus := by
        rintro _ ⟨⟩
        exact alongSignal_mem onGrid ⟨halves.zero_mem, port⟩
      rightBus := by
        rintro _ ⟨⟩
        exact alongSignal_mem onGrid ⟨extentOnGrid.size.x, port⟩ }
  · next links isTwoport =>
    have targets : ∀ link ∈ extent.circuit.linkExtents extents, link.2.IsWhole :=
      fun link isLink => partsWhole link.2 (List.of_mem_zip isLink).2
    have lines := twoportLines_isOnGrid settingsWhole targets
    exact {
      bare with
      wires := by
        intro wire isWire
        obtain ⟨index, slot, found, isWire⟩ := mem_slotWires.mp isWire
        have isSlot := List.mem_of_getElem? found
        exact LinkSlot.wires_isOnGrid onGrid lines
          (linkSlot_isWhole settingsWhole targets isSlot) _ _ wire isWire
      rail := by
        rintro _ ⟨⟩
        exact (Frame.point_isOnGrid onGrid ⟨halves.zero_mem, lines.rail⟩).y }
  · exact bare

theorem partFrames_isOnGrid (extentOnGrid : extent.IsOnGrid) :
    ∀ partFrame ∈ partFrames settings extent extents frame, partFrame.origin.IsOnGrid := by
  intro partFrame isFrame
  obtain ⟨index, found⟩ := List.mem_iff_getElem?.mp isFrame
  cases same : extent.circuit with
  | element element =>
      rw [partFrames, same] at isFrame
      cases isFrame
  | link link =>
      rw [partFrames, same] at isFrame
      cases isFrame
  | series members =>
      rw [partFrames_series same, Option.map_eq_some_iff] at found
      obtain ⟨member, foundMember, rfl⟩ := found
      have memberOnGrid := (partsWhole member (List.mem_of_getElem? foundMember)).isOnGrid
      refine Frame.point_isOnGrid onGrid ⟨startOf_mem (List.forall_mem_map.mpr ?_) index,
        halves.sub_mem extentOnGrid.leftPort.y memberOnGrid.leftPort.y⟩
      exact fun other isOther => (partsWhole other isOther).isOnGrid.size.x
  | parallel branches =>
      rw [partFrames_parallel same, Option.map_eq_some_iff] at found
      obtain ⟨branch, foundBranch, rfl⟩ := found
      have whole := extentOnGrid.whole fun links isTwoport => by
        rw [same] at isTwoport
        cases isTwoport
      exact Frame.point_isOnGrid onGrid (branchCorner_isOnGrid settingsWhole partsWhole whole.1
        index (List.mem_of_getElem? foundBranch))
  | twoport links =>
      have targets : ∀ link ∈ (links.map Link.kind).zip extents, link.2.IsWhole :=
        fun link isLink => partsWhole link.2 (List.of_mem_zip isLink).2
      rw [partFrames_twoport same, Option.map_eq_some_iff] at found
      obtain ⟨link, foundLink, rfl⟩ := found
      refine LinkSlot.targetFrame_isOnGrid onGrid (twoportLines_isOnGrid settingsWhole targets)
        (linkSlot_isWhole settingsWhole targets (List.mem_of_getElem? (i := index) ?_))
      rw [linkSlots_getElem?_zero, foundLink]
      rfl

end

omit onGrid

/-- Wherever the measure is placed on the grid, all nodes are on the grid. -/
def Measure.KeepsGrid (settings : LayoutSettings Rat) (measure : Measure Rat) : Prop :=
  ∀ frame : Frame Rat, frame.origin.IsOnGrid →
    ∀ node ∈ (measure.place settings frame).nodes, node.placement.IsOnGrid

theorem Measure.keepsGrid_of_parts (settingsWhole : settings.IsWhole) {measure : Measure Rat}
    (extentOnGrid : measure.extent.IsOnGrid)
    (partsWhole : ∀ part ∈ measure.parts, part.extent.IsWhole)
    (parts : ∀ part ∈ measure.parts, part.KeepsGrid settings) : measure.KeepsGrid settings := by
  have extentsWhole : ∀ part ∈ measure.extents, part.IsWhole := List.forall_mem_map.mpr partsWhole
  intro frame onGrid node isNode
  rcases Layout.mem_nodes.mp isNode with rfl | ⟨child, isChild, isNode⟩
  · rw [Measure.place_placement]
    exact placement_isOnGrid onGrid settingsWhole extentsWhole extentOnGrid
  · obtain ⟨index, found⟩ := List.mem_iff_getElem?.mp isChild
    obtain ⟨part, partFrame, foundPart, foundFrame, rfl⟩ := Measure.place_child.mp found
    exact parts part (List.mem_of_getElem? foundPart) partFrame
      (partFrames_isOnGrid onGrid settingsWhole extentsWhole extentOnGrid partFrame
        (List.mem_of_getElem? foundFrame)) node isNode

section

variable {measure : Measure Rat} (symbolsWhole : symbols.IsWhole) (settingsWhole : settings.IsWhole)

include symbolsWhole settingsWhole

theorem Measure.Sized.keepsGrid (sized : measure.Sized symbols settings) :
    measure.KeepsGrid settings := by
  have whole := fun part (partSized : Measure.Sized symbols settings part) =>
    partSized.isWhole symbolsWhole settingsWhole
  induction sized with
  | element known =>
      exact Measure.keepsGrid_of_parts settingsWhole (whole _ (.element known)).isOnGrid nofun nofun
  | series two sized measured ih =>
      exact Measure.keepsGrid_of_parts settingsWhole (whole _ (.series two sized measured)).isOnGrid
        (fun part isPart => whole part (sized part isPart)) ih
  | parallel two sized measured ih =>
      exact Measure.keepsGrid_of_parts settingsWhole
        (whole _ (.parallel two sized measured)).isOnGrid
        (fun part isPart => whole part (sized part isPart)) ih

theorem Measure.SizedRoot.keepsGrid (sized : measure.SizedRoot symbols settings) :
    measure.KeepsGrid settings := by
  cases sized with
  | part sized => exact sized.keepsGrid symbolsWhole settingsWhole
  | @twoport links parts sized same =>
      have whole : ∀ part ∈ parts, part.extent.IsWhole := fun part isPart =>
        (sized part isPart).isWhole symbolsWhole settingsWhole
      refine Measure.keepsGrid_of_parts settingsWhole ?_ whole fun part isPart =>
        (sized part isPart).keepsGrid symbolsWhole settingsWhole
      refine twoportExtent_isOnGrid settingsWhole (fun link isLink => ?_) links
      obtain ⟨part, isPart, extent⟩ := List.mem_map.mp (List.of_mem_zip isLink).2
      exact extent ▸ whole part isPart

end

/-- Every node of a layout with whole distances is on the grid. -/
theorem layout_isOnGrid {circuit : Circuit} (wellFormed : circuit.WellFormed)
    (symbolsWhole : symbols.IsWhole) (settingsWhole : settings.IsWhole) {layout : Layout Rat}
    (placed : circuit.layout symbols settings = .ok layout) :
    ∀ node ∈ layout.walk, node.placement.IsOnGrid := by
  rw [Circuit.layout] at placed
  obtain ⟨measure, measured, placed⟩ := exists_of_bind_eq_ok placed
  cases placed
  rw [Layout.walk_eq_nodes]
  exact (wellFormed.sized measured).1.keepsGrid symbolsWhole settingsWhole _
    ⟨mem_halves_of_mem_wholes settingsWhole.originX, mem_halves_of_mem_wholes settingsWhole.originY⟩

end Schematic
