import Schematic.Proofs.Layout.ComputedPlaces

/-!
# Layouts in double precision

A layout of `n` elements with whole distances and symbols of at most `unit` has no
coordinate beyond `16 n ^ 2` units.  If all of these fit into double precision, then
the computed layout is the exact one: it has the same nodes and wires, and its
numbers hold the exact coordinates.
-/

namespace Schematic

open Number (Scale HoldsHalf)
open Schematic.Measure (circuit)

variable {scale : Scale} {computedSymbols : SymbolLibrary Float} {symbols : SymbolLibrary Rat}
  {computedSettings : LayoutSettings Float} {settings : LayoutSettings Rat}

/-! ## Placing parts -/

/-- Wherever there is room for both measures, they are placed in the same way. -/
def Number.Scale.Places (scale : Scale) (computedSettings : LayoutSettings Float)
    (settings : LayoutSettings Rat) (computed : Measure Float) (exact : Measure Rat) : Prop :=
  ∀ start computedFrame frame, computedFrame.Rel (scale.Holds start) frame →
    start + 6 * exact.extent.elementCount ^ 2 ≤ scale.room →
    (computed.place computedSettings computedFrame).Rel (scale.Holds scale.room)
      (exact.place settings frame)

/-- The measures of a part in both arithmetics. -/
structure Number.Scale.Parts (scale : Scale) (computedSettings : LayoutSettings Float)
    (settings : LayoutSettings Rat) (computed : Measure Float) (exact : Measure Rat) : Prop where
  sizes : scale.Sizes computed.extent exact.extent
  places : scale.Places computedSettings settings computed exact

section

variable {parts : List (Measure Float)} {exactParts : List (Measure Rat)}
  (related : List.Forall₂ (scale.Parts computedSettings settings) parts exactParts)

include related

theorem placeAll_related {start : Nat} {computedFrames : List (Frame Float)}
    {frames : List (Frame Rat)}
    (framed : List.Forall₂ (Frame.Rel (scale.Holds start)) computedFrames frames)
    (room : ∀ part ∈ exactParts, start + 6 * part.extent.elementCount ^ 2 ≤ scale.room) :
    List.Forall₂ (Layout.Rel (scale.Holds scale.room))
      (placeAll computedSettings parts computedFrames) (placeAll settings exactParts frames) := by
  induction related generalizing computedFrames frames with
  | nil => exact .nil
  | @cons _ exactPart _ exactRest first rest ih =>
      obtain ⟨firstRoom, restRoom⟩ := List.forall_mem_cons.mp room
      cases framed with
      | nil => exact .nil
      | cons frame others =>
          exact .cons (first.places _ _ _ frame firstRoom) (ih others restRoom)

theorem extents_related :
    List.Forall₂ scale.Sizes (parts.map Measure.extent) (exactParts.map Measure.extent) :=
  List.rel_map (fun _ _ part => part.sizes) related

/-- A circuit of `count` elements is placed in the same way, if there is room for
its parts beside it. -/
theorem place_related (distances : computedSettings.Rel (scale.Holds 1) settings)
    (settingsWhole : settings.IsWhole) {start count : Nat} {extent : Extent Float}
    {exactExtent : Extent Rat} (extents : extent.Rel (scale.Holds (6 * count)) exactExtent)
    (sizes : (∀ links, exactExtent.circuit ≠ .twoport links) →
      extent.Rel (scale.Holds (2 * count - 1)) exactExtent ∧ exactExtent.width ∈ Number.wholes)
    (few : elementCounts (exactParts.map Measure.extent) ≤ count) (positive : 1 ≤ count)
    {computedFrame : Frame Float} {frame : Frame Rat}
    (frames : computedFrame.Rel (scale.Holds start) frame)
    (room : start + 6 * count ≤ scale.room)
    (partsRoom : ∀ part ∈ exactParts,
      start + 6 * count + 6 * part.extent.elementCount ^ 2 ≤ scale.room) :
    (Measure.place computedSettings (.node extent parts) computedFrame).Rel
      (scale.Holds scale.room) (Measure.place settings (.node exactExtent exactParts) frame) := by
  have inner := extents_related related
  rw [Measure.place, Measure.place]
  refine .node ?_ (placeAll_related related ?_ partsRoom)
  · have placed := placement_related distances settingsWhole frames room extents sizes inner few
      positive
    exact placed.mono fun _ _ holds => holds.mono room
  · exact partFrames_related distances settingsWhole frames room extents sizes inner few positive

end

/-! ## Measuring parts -/

theorem elementCounts_eq (parts : List (Measure Rat)) :
    elementCounts (parts.map Measure.extent) =
      (Circuit.elementsOfAll (parts.map circuit)).length := by
  induction parts with
  | nil => rfl
  | cons part rest ih =>
      rw [List.map_cons, List.map_cons, Circuit.elementsOfAll, List.length_append, ← ih]
      rfl

theorem measure_twoport {α : Type} [Scalar α] {symbols : SymbolLibrary α}
    {settings : LayoutSettings α} {links : List (Link Circuit)} {parts : List (Measure α)}
    (measured : measureAll symbols settings (links.map Link.target) = .ok parts) :
    Circuit.measure symbols settings (.twoport links) = .ok (.network settings links parts) := by
  rw [Circuit.measure, measureTargets_eq, measured]
  rfl

/-- A part leaves at least one element to each of the other parts. -/
theorem elementCount_add_length_le {computed : List (Extent Float)} {exact : List (Extent Rat)}
    (parts : List.Forall₂ scale.Sizes computed exact) {part : Extent Rat} (isPart : part ∈ exact) :
    part.elementCount + exact.length ≤ elementCounts exact + 1 := by
  induction parts with
  | nil => cases isPart
  | @cons _ first _ rest firstSizes restSizes ih =>
      have total : elementCounts (first :: rest) = first.elementCount + elementCounts rest := rfl
      have inhabited := firstSizes.inhabited
      rw [List.length_cons]
      rcases List.mem_cons.mp isPart with rfl | later
      · have others := length_le_elementCounts restSizes
        omega
      · have others := ih later
        omega

theorem add_square_le {few many : Nat} (fewer : few < many) : many + few ^ 2 ≤ many ^ 2 := by
  obtain ⟨less, rfl⟩ := Nat.exists_eq_add_of_lt fewer
  ring_nf
  nlinarith

/-- What is measured and placed in the same way in both arithmetics. -/
def Number.Scale.Agrees (scale : Scale) (computedSymbols : SymbolLibrary Float)
    (symbols : SymbolLibrary Rat) (computedSettings : LayoutSettings Float)
    (settings : LayoutSettings Rat) (circuit : Circuit) : Prop :=
  ∃ computed exact, Circuit.measure computedSymbols computedSettings circuit = .ok computed ∧
    Circuit.measure symbols settings circuit = .ok exact ∧ exact.circuit = circuit ∧
    scale.Parts computedSettings settings computed exact

theorem exists_parts {circuits : List Circuit}
    (each : ∀ circuit ∈ circuits,
      scale.Agrees computedSymbols symbols computedSettings settings circuit) :
    ∃ parts exactParts, measureAll computedSymbols computedSettings circuits = .ok parts ∧
      measureAll symbols settings circuits = .ok exactParts ∧
      exactParts.map circuit = circuits ∧
      List.Forall₂ (scale.Parts computedSettings settings) parts exactParts := by
  induction circuits with
  | nil => exact ⟨[], [], rfl, rfl, rfl, .nil⟩
  | cons circuit rest ih =>
      obtain ⟨⟨first, exactFirst, measured, exactMeasured, rfl, related⟩, others⟩ :=
        List.forall_mem_cons.mp each
      obtain ⟨parts, exactParts, allMeasured, allExactMeasured, rfl, allRelated⟩ := ih others
      refine ⟨first :: parts, exactFirst :: exactParts, ?_, ?_, rfl, .cons related allRelated⟩
      · rw [measureAll, measured, allMeasured]
        rfl
      · rw [measureAll, exactMeasured, allExactMeasured]
        rfl

theorem length_elements_le {circuit : Circuit} {circuits : List Circuit}
    (isMember : circuit ∈ circuits) :
    circuit.elements.length ≤ (Circuit.elementsOfAll circuits).length := by
  induction circuits with
  | nil => cases isMember
  | cons first rest ih =>
      rw [Circuit.elementsOfAll, List.length_append]
      rcases List.mem_cons.mp isMember with rfl | later
      · exact Nat.le_add_right _ _
      · exact (ih later).trans (Nat.le_add_left _ _)

theorem Circuit.IsPart.one_le_length {circuit : Circuit} (part : circuit.IsPart) :
    1 ≤ circuit.elements.length := by
  induction part with
  | element => exact le_rfl
  | series two _ ih | parallel two _ ih =>
      have first := List.getElem_mem (Nat.zero_lt_of_lt two)
      exact (ih _ first).trans (length_elements_le first)

theorem Circuit.WellFormed.one_le_length {circuit : Circuit} (wellFormed : circuit.WellFormed) :
    1 ≤ circuit.elements.length := by
  cases wellFormed with
  | part part => exact part.one_le_length
  | @twoport links inhabited targets =>
      obtain ⟨link, isLink⟩ := List.exists_mem_of_ne_nil links inhabited
      rw [elements, elementsOfLinks_eq]
      exact (targets link isLink).one_le_length.trans
        (length_elements_le (List.mem_map_of_mem isLink))

section

variable (distances : computedSettings.Rel (scale.Holds 1) settings)
  (settingsWhole : settings.IsWhole)

include distances settingsWhole

omit settingsWhole in
theorem origin_related :
    Frame.Rel (scale.Holds 1) ⟨computedSettings.origin, false⟩ ⟨settings.origin, false⟩ :=
  ⟨⟨distances.originX, distances.originY⟩, rfl⟩

variable {extent : Extent Float} {exactExtent : Extent Rat}
  (sizes : scale.Sizes extent exactExtent) {parts : List (Measure Float)}
  {exactParts : List (Measure Rat)}
  (related : List.Forall₂ (scale.Parts computedSettings settings) parts exactParts)

include sizes related

/-- A circuit is placed in the same way if its parts are and have fewer elements, so
that their squares leave room for the distances of the circuit itself. -/
theorem part_places
    (few : elementCounts (exactParts.map Measure.extent) ≤ exactExtent.elementCount)
    (fewer : ∀ part ∈ exactParts, part.extent.elementCount < exactExtent.elementCount) :
    scale.Places computedSettings settings (.node extent parts)
      (.node exactExtent exactParts) := by
  intro start computedFrame frame frames room
  change start + 6 * exactExtent.elementCount ^ 2 ≤ scale.room at room
  have square : exactExtent.elementCount ≤ exactExtent.elementCount ^ 2 :=
    Nat.le_self_pow two_ne_zero _
  have extents : extent.Rel (scale.Holds (6 * exactExtent.elementCount)) exactExtent :=
    sizes.extents.mono fun _ _ holds => holds.mono (by omega)
  refine place_related related distances settingsWhole extents
    (fun _ => ⟨sizes.extents, sizes.whole.width⟩) few sizes.inhabited frames (by omega)
    fun part isPart => ?_
  have inner := add_square_le (fewer part isPart)
  omega

/-- A group is placed in the same way if its parts are. -/
theorem group_places (two : 2 ≤ exactParts.length)
    (total : exactExtent.elementCount = elementCounts (exactParts.map Measure.extent)) :
    scale.Places computedSettings settings (.node extent parts)
      (.node exactExtent exactParts) := by
  refine part_places distances settingsWhole sizes related total.ge fun part isPart => ?_
  have others := elementCount_add_length_le (extents_related related) (List.mem_map_of_mem isPart)
  rw [List.length_map] at others
  omega

omit sizes related

/-- A group agrees if its parts do, as long as their extents decide its own. -/
theorem group_agrees {group : Circuit} {circuits : List Circuit}
    (elements : group.elements = Circuit.elementsOfAll circuits) (two : 2 ≤ circuits.length)
    (parts : ∀ part ∈ circuits,
      scale.Agrees computedSymbols symbols computedSettings settings part)
    {computedExtent : List (Extent Float) → Except LayoutFault (Extent Float)}
    {exactExtent : List (Extent Rat) → Except LayoutFault (Extent Rat)}
    (computedMeasure : Circuit.measure computedSymbols computedSettings group = do
      let parts ← measureAll computedSymbols computedSettings circuits
      let extent ← computedExtent (parts.map Measure.extent)
      return .node extent parts)
    (exactMeasure : Circuit.measure symbols settings group = do
      let parts ← measureAll symbols settings circuits
      let extent ← exactExtent (parts.map Measure.extent)
      return .node extent parts)
    (decided : ∀ computed exact, List.Forall₂ scale.Sizes computed exact → exact ≠ [] →
      elementCounts exact = group.elements.length →
      ∃ extent ofGroup, computedExtent computed = .ok extent ∧ exactExtent exact = .ok ofGroup ∧
        ofGroup.circuit = group ∧ scale.Sizes extent ofGroup) :
    scale.Agrees computedSymbols symbols computedSettings settings group := by
  obtain ⟨computed, exact, measured, exactMeasured, rfl, related⟩ := exists_parts parts
  have counted : elementCounts (exact.map Measure.extent) = group.elements.length :=
    (elementCounts_eq exact).trans (congrArg List.length elements.symm)
  rw [List.length_map] at two
  have inhabited : exact.map Measure.extent ≠ [] := by
    apply List.ne_nil_of_length_pos
    rw [List.length_map]
    omega
  obtain ⟨extent, ofGroup, sized, exactSized, rfl, sizes⟩ :=
    decided _ _ (extents_related related) inhabited counted
  refine ⟨.node extent computed, .node ofGroup exact, ?_, ?_, rfl, sizes,
    group_places distances settingsWhole sizes related two counted.symm⟩
  · rw [computedMeasure, measured, ok_bind, sized]
    rfl
  · rw [exactMeasure, exactMeasured, ok_bind, exactSized]
    rfl

variable (library : scale.Symbols computedSymbols symbols)

include library

/-- A well-formed part is measured and placed in the same way. -/
theorem Circuit.IsPart.agrees {circuit : Circuit} (part : circuit.IsPart)
    (room : 6 * circuit.elements.length ≤ scale.room) :
    scale.Agrees computedSymbols symbols computedSettings settings circuit := by
  induction part with
  | @element element =>
      obtain ⟨symbol, exactSymbol, found, exactFound, sizes⟩ := library element
      refine ⟨.node (symbol.extent element) [], .node (exactSymbol.extent element) [], ?_, ?_, rfl,
        sizes, part_places distances settingsWhole sizes .nil (Nat.zero_le _) (by simp)⟩
      · rw [Circuit.measure, found]
      · rw [Circuit.measure, exactFound]
  | @series members two _ ih =>
      have inner := fun member isMember => ih member isMember <|
        (Nat.mul_le_mul_left 6 (length_elements_le isMember)).trans room
      refine group_agrees distances settingsWhole rfl two inner (by rw [Circuit.measure])
        (by rw [Circuit.measure]) fun computed exact related inhabited counted => ?_
      obtain ⟨extent, ofGroup, sized, exactSized, sizes⟩ :=
        seriesExtent_sizes (.series members) related counted rfl inhabited room
      exact ⟨extent, ofGroup, sized, exactSized, seriesExtent_circuit exactSized, sizes⟩
  | @parallel branches two _ ih =>
      have inner := fun branch isBranch => ih branch isBranch <|
        (Nat.mul_le_mul_left 6 (length_elements_le isBranch)).trans room
      refine group_agrees distances settingsWhole rfl two inner (by rw [Circuit.measure])
        (by rw [Circuit.measure]) fun computed exact related inhabited counted => ?_
      obtain ⟨extent, ofGroup, sized, exactSized, sizes⟩ :=
        parallelExtent_sizes (.parallel branches) related counted rfl inhabited room distances
          settingsWhole
      exact ⟨extent, ofGroup, sized, exactSized, parallelExtent_circuit exactSized, sizes⟩

omit library

/-- A twoport has the same layout in both arithmetics if its targets agree. -/
theorem twoport_related {links : List (Link Circuit)}
    (agree : ∀ target ∈ links.map Link.target,
      scale.Agrees computedSymbols symbols computedSettings settings target)
    {count : Nat} (counted : (Circuit.twoport links).elements.length = count)
    (positive : 1 ≤ count) (room : 16 * count ^ 2 ≤ scale.room) :
    ∃ computed exact, Circuit.layout computedSymbols computedSettings (.twoport links) =
        .ok computed ∧
      Circuit.layout symbols settings (.twoport links) = .ok exact ∧
      computed.Rel (scale.Holds scale.room) exact := by
  obtain ⟨parts, exactParts, measured, exactMeasured, circuits, related⟩ := exists_parts agree
  have square : count ≤ count ^ 2 := Nat.le_self_pow two_ne_zero _
  have few : elementCounts (exactParts.map Measure.extent) ≤ count := by
    rw [elementCounts_eq, circuits, ← Circuit.elementsOfLinks_eq, ← counted]
    exact le_rfl
  obtain ⟨linkSizes, fewer⟩ := zip_linkSizes (extents_related related) (links.map Link.kind)
  have extents := twoportExtent_related distances linkSizes (fewer.trans few) positive (by omega)
    (.twoport links)
  refine ⟨_, _, Circuit.layout_of_measure (measure_twoport measured),
    Circuit.layout_of_measure (measure_twoport exactMeasured), ?_⟩
  refine place_related related distances settingsWhole extents
    (fun noTwoport => absurd rfl (noTwoport links)) few positive
    (origin_related distances) (by omega) fun part isPart => ?_
  have atMost := (elementCount_le (List.mem_map_of_mem isPart)).trans few
  have smaller := Nat.pow_le_pow_left atMost 2
  omega

include library

/-- A well-formed circuit has the same layout in both arithmetics. -/
theorem Circuit.WellFormed.layout_related {circuit : Circuit} (wellFormed : circuit.WellFormed)
    (room : 16 * circuit.elements.length ^ 2 ≤ scale.room) :
    ∃ computed exact, circuit.layout computedSymbols computedSettings = .ok computed ∧
      circuit.layout symbols settings = .ok exact ∧
      computed.Rel (scale.Holds scale.room) exact := by
  have positive := wellFormed.one_le_length
  have square : circuit.elements.length ≤ circuit.elements.length ^ 2 :=
    Nat.le_self_pow two_ne_zero _
  cases wellFormed with
  | part part =>
      obtain ⟨computed, exact, measured, exactMeasured, rfl, related⟩ :=
        part.agrees distances settingsWhole library (by omega)
      refine ⟨_, _, layout_of_measure measured, layout_of_measure exactMeasured,
        related.places 1 _ _ (origin_related distances) ?_⟩
      change 1 + 6 * exact.circuit.elements.length ^ 2 ≤ scale.room
      omega
  | @twoport links _ targets =>
      refine twoport_related distances settingsWhole (fun target isTarget => ?_) rfl positive room
      have fewer := length_elements_le isTarget
      rw [← elementsOfLinks_eq] at fewer
      obtain ⟨link, isLink, rfl⟩ := List.mem_map.mp isTarget
      rw [elements] at square room
      exact (targets link isLink).agrees distances settingsWhole library (by omega)

end

/-- All standard symbols fit into a box of one hundred by one hundred. -/
theorem standard_symbols (large : 100 ≤ scale.unit) (room : 2 ≤ scale.room) :
    scale.Symbols .standard .standard := by
  intro element
  refine ⟨_, _, rfl, rfl, .of_count rfl le_rfl
    (SymbolLibrary.standard_isWhole element.kind _ rfl element) ?_⟩
  obtain ⟨width, height, narrow, low, family, name, computed, exact⟩ :
      ∃ width height : Nat, width ≤ 100 ∧ height ≤ 100 ∧ ∃ family name,
        (Symbol.standard element.kind : Symbol Float) =
          .centred family name (Scalar.ofNat width) (Scalar.ofNat height) ∧
        (Symbol.standard element.kind : Symbol Rat) =
          .centred family name (Scalar.ofNat width) (Scalar.ofNat height) := by
    cases element.kind <;> refine ⟨_, _, ?_, ?_, _, _, rfl, rfl⟩ <;> decide
  have single : ∀ count : Nat, count ≤ 100 →
      scale.Holds 1 (Scalar.ofNat count) (Scalar.ofNat count) := fun count few =>
    Scale.holds_ofNat (by omega) ((Nat.cast_le.mpr few).trans large)
  have middle : scale.Holds 1 (Scalar.half (Scalar.ofNat height))
      (Scalar.half (Scalar.ofNat height)) := by
    have twice : scale.Holds (2 * 1) _ _ := (single height low).mono (by omega)
    exact twice.scalar_half (Number.natCast_mem_wholes height) room
  rw [computed, exact]
  exact ⟨rfl, single width narrow, single height low, ⟨scale.holds_zero 1, middle⟩,
    ⟨single width narrow, middle⟩⟩

theorem LayoutSettings.Rel.isWhole {limit : Rat}
    (settled : computedSettings.Rel (Number.HoldsWhole limit) settings) : settings.IsWhole where
  parallelSpacing := settled.parallelSpacing.whole
  shuntStub := settled.shuntStub.whole
  shuntLead := settled.shuntLead.whole
  railClearance := settled.railClearance.whole
  originX := settled.originX.whole
  originY := settled.originY.whole

/-- Double precision computes the exact layout of a circuit of `n` elements, if no
distance is larger than `limit` and all of them are whole, and `n ^ 2` times `limit`
is below `2 ^ 48`.  No coordinate is larger than `16 n ^ 2` times `limit`. -/
theorem layout_within {circuit : Circuit} (wellFormed : circuit.WellFormed) {limit : Rat}
    (large : 100 ≤ limit) (fits : circuit.elements.length ^ 2 * limit < 2 ^ 48)
    (settled : computedSettings.Rel (Number.HoldsWhole limit) settings) :
    ∃ computed exact, circuit.layout .standard computedSettings = .ok computed ∧
      circuit.layout .standard settings = .ok exact ∧
      computed.Rel (Number.HoldsWithin (16 * circuit.elements.length ^ 2 * limit)) exact := by
  let scale : Scale := {
    unit := limit
    room := 16 * circuit.elements.length ^ 2
    one_le_unit := by linarith
    fits := by
      push_cast
      linarith }
  have distances : computedSettings.Rel (scale.Holds 1) settings :=
    settled.mono fun _ _ => Scale.holds_of_whole
  have square := Nat.one_le_pow 2 _ wellFormed.one_le_length
  have room : 2 ≤ 16 * circuit.elements.length ^ 2 := by omega
  obtain ⟨computed, exact, placed, exactPlaced, related⟩ := wellFormed.layout_related distances
    settled.isWhole (standard_symbols large room) le_rfl
  refine ⟨computed, exact, placed, exactPlaced, related.mono fun _ _ holds => ?_⟩
  exact ⟨holds.holdsHalf le_rfl, holds.within.trans_eq (by simp [scale])⟩

theorem layout_computed {circuit : Circuit} (wellFormed : circuit.WellFormed) {limit : Rat}
    (large : 100 ≤ limit) (fits : circuit.elements.length ^ 2 * limit < 2 ^ 48)
    (settled : computedSettings.Rel (Number.HoldsWhole limit) settings) :
    ∃ computed exact, circuit.layout .standard computedSettings = .ok computed ∧
      circuit.layout .standard settings = .ok exact ∧ computed.Rel HoldsHalf exact := by
  obtain ⟨computed, exact, placed, exactPlaced, related⟩ :=
    layout_within wellFormed large fits settled
  exact ⟨computed, exact, placed, exactPlaced, related.mono fun _ _ holds => holds.holdsHalf⟩

end Schematic
