import Schematic.Proofs.Layout.Moving
import Schematic.Proofs.Layout.SameBoxes

/-!
# Layouts of flattened circuits

What a circuit contributes to a drawing depends on the boxes of its parts only,
not on the circuits in them.  So a change in one part is not seen from outside
if it keeps the box of the part and what the part shows in every frame.
Flattening a nested group is such a change.
-/

namespace Schematic

/-! ## What a layout shows -/

/-- What the nodes of layouts contribute to a drawing, one node after the other. -/
def Layout.collect {β : Type} (own : Placement Rat → List β) (layouts : List (Layout Rat)) :
    List β :=
  (nodesOfAll layouts).flatMap fun node => own node.placement

/-- A view of placed circuits to which groups of some kinds do not contribute
anything themselves, and in which circuits with the same boxes look the same. -/
structure View (settings : LayoutSettings Rat) (kinds : Set GroupKind) (β : Type) where
  own : Placement Rat → List β
  hidden {kind : GroupKind} {extent : Extent Rat} {circuits : List Circuit}
    (parts : List (Extent Rat)) (frame : Frame Rat) : kind ∈ kinds →
    extent.circuit = kind.group circuits → own (placement settings extent parts frame) = []
  group {kind : GroupKind} {extent other : Extent Rat} {circuits otherCircuits : List Circuit}
    {parts others : List (Extent Rat)} (frame : Frame Rat) :
    extent.circuit = kind.group circuits → other.circuit = kind.group otherCircuits →
    extent.nameless = other.nameless → SameBoxes parts others →
    own (placement settings extent parts frame) = own (placement settings other others frame)
  twoport {extent other : Extent Rat} {links otherLinks : List (Link Circuit)}
    {parts others : List (Extent Rat)} (frame : Frame Rat) :
    extent.circuit = .twoport links → other.circuit = .twoport otherLinks →
    links.map Link.kind = otherLinks.map Link.kind → SameBoxes parts others →
    own (placement settings extent parts frame) = own (placement settings other others frame)

variable {symbols : SymbolLibrary Rat} {settings : LayoutSettings Rat} {kinds : Set GroupKind}

theorem element?_eq_none_of_group {kind : GroupKind} {extent : Extent Rat}
    {circuits : List Circuit} (isGroup : extent.circuit = kind.group circuits)
    (parts : List (Extent Rat)) (frame : Frame Rat) :
    (placement settings extent parts frame).element? = none := by
  rw [Placement.element?, placement_circuit, isGroup]
  cases kind <;> rfl

theorem element?_eq_none_of_twoport {extent : Extent Rat} {links : List (Link Circuit)}
    (isTwoport : extent.circuit = .twoport links) (parts : List (Extent Rat))
    (frame : Frame Rat) : (placement settings extent parts frame).element? = none := by
  rw [Placement.element?, placement_circuit, isTwoport]

/-- The view of the elements, in which no group is seen. -/
def View.elements (settings : LayoutSettings Rat) (kinds : Set GroupKind) :
    View settings kinds (Placement Rat) where
  own placement := if placement.element?.isSome then [placement] else []
  hidden parts frame _ isGroup := by simp [element?_eq_none_of_group isGroup]
  group frame isGroup otherGroup _ _ := by
    simp [element?_eq_none_of_group isGroup, element?_eq_none_of_group otherGroup]
  twoport frame isTwoport otherTwoport _ _ := by
    simp [element?_eq_none_of_twoport isTwoport, element?_eq_none_of_twoport otherTwoport]

theorem twoport_placement_wires {extent : Extent Rat} {links : List (Link Circuit)}
    (isTwoport : extent.circuit = .twoport links) (parts : List (Extent Rat))
    (frame : Frame Rat) :
    (placement settings extent parts frame).wires =
      networkWires settings frame ((links.map Link.kind).zip parts) := by
  rw [placement, isTwoport]
  rfl

/-- The view of the wires: series groups have none of their own. -/
def View.wires (settings : LayoutSettings Rat) (seriesOnly : GroupKind.parallel ∉ kinds) :
    View settings kinds (Wire Rat) where
  own := Placement.wires
  hidden {kind} _ _ parts frame isKind isGroup := by
    rw [kind.placement_wires isGroup]
    cases kind with
    | series => rfl
    | parallel => exact absurd isKind seriesOnly
  group {kind} _ _ _ _ _ _ frame isGroup otherGroup sameBox same := by
    rw [kind.placement_wires isGroup, kind.placement_wires otherGroup, ← kind.wires_nameless,
      sameBox, same, kind.wires_nameless]
  twoport frame isTwoport otherTwoport sameKinds same := by
    rw [twoport_placement_wires isTwoport, twoport_placement_wires otherTwoport,
      ← networkWires_nameless, ← zip_nameless, sameKinds, same, zip_nameless,
      networkWires_nameless]

/-! ## Circuits that look alike -/

variable {β : Type} {view : View settings kinds β}

/-- Two measured circuits have the same box, and show the same in every frame. -/
structure Measure.LooksLike (view : View settings kinds β) (first second : Measure Rat) :
    Prop where
  sameBox : first.extent.nameless = second.extent.nameless
  shown (frame : Frame Rat) : Layout.collect view.own [first.place settings frame] =
    Layout.collect view.own [second.place settings frame]

theorem Measure.LooksLike.refl (measure : Measure Rat) : measure.LooksLike view measure :=
  ⟨rfl, fun _ => rfl⟩

theorem Measure.LooksLike.trans {first second third : Measure Rat}
    (one : first.LooksLike view second) (two : second.LooksLike view third) :
    first.LooksLike view third :=
  ⟨one.sameBox.trans two.sameBox, fun frame => (one.shown frame).trans (two.shown frame)⟩

theorem Layout.collect_append (own : Placement Rat → List β) (first second : List (Layout Rat)) :
    collect own (first ++ second) = collect own first ++ collect own second := by
  rw [collect, nodesOfAll_append, List.flatMap_append]
  rfl

theorem Layout.collect_cons (own : Placement Rat → List β) (first : Layout Rat)
    (rest : List (Layout Rat)) :
    collect own (first :: rest) = collect own [first] ++ collect own rest :=
  collect_append own [first] rest

theorem Measure.collect_place (own : Placement Rat → List β) (extent : Extent Rat)
    (parts : List (Measure Rat)) (frame : Frame Rat) :
    let extents := parts.map Measure.extent
    Layout.collect own [(Measure.node extent parts).place settings frame] =
      own (placement settings extent extents frame) ++
        Layout.collect own
          (placeAll settings parts (partFrames settings extent extents frame)) := by
  simp [Layout.collect, Measure.place, Layout.nodesOfAll, Layout.nodes, Layout.placement]

theorem placeAll_append {before after : List (Measure Rat)} {first last : List (Frame Rat)}
    (sameLength : before.length = first.length) :
    placeAll settings (before ++ after) (first ++ last) =
      placeAll settings before first ++ placeAll settings after last := by
  rw [placeAll_eq, List.zipWith_append sameLength, ← placeAll_eq, ← placeAll_eq]

theorem collect_placeAll {parts others : List (Measure Rat)}
    (alike : List.Forall₂ (Measure.LooksLike view) parts others) (frames : List (Frame Rat)) :
    Layout.collect view.own (placeAll settings parts frames) =
      Layout.collect view.own (placeAll settings others frames) := by
  induction alike generalizing frames with
  | nil => rfl
  | cons first rest ih =>
      cases frames with
      | nil => rfl
      | cons frame frames =>
          rw [placeAll, placeAll, Layout.collect_cons, first.shown, ih, ← Layout.collect_cons]

theorem sameBoxes_of_looksLike {parts others : List (Measure Rat)}
    (alike : List.Forall₂ (Measure.LooksLike view) parts others) :
    SameBoxes (parts.map Measure.extent) (others.map Measure.extent) := by
  induction alike with
  | nil => rfl
  | cons first rest ih => exact congrArg₂ List.cons first.sameBox ih

/-! ## Measures of groups -/

theorem GroupKind.measure_eq_ok {kind : GroupKind} {circuits : List Circuit}
    {measure : Measure Rat} :
    (kind.group circuits).measure symbols settings = .ok measure ↔
      ∃ parts extent, measureAll symbols settings circuits = .ok parts ∧
        kind.extent settings (kind.group circuits) (parts.map Measure.extent) = .ok extent ∧
        measure = .node extent parts := by
  have unfolded : (kind.group circuits).measure symbols settings = (do
      let parts ← measureAll symbols settings circuits
      let extent ← kind.extent settings (kind.group circuits) (parts.map Measure.extent)
      return .node extent parts) := by
    cases kind <;> rw [group, Circuit.measure] <;> rfl
  rw [unfolded]
  constructor
  · intro measured
    obtain ⟨parts, partsMeasured, measured⟩ := exists_of_bind_eq_ok measured
    obtain ⟨extent, extentMeasured, measured⟩ := exists_of_bind_eq_ok measured
    cases measured
    exact ⟨parts, extent, partsMeasured, extentMeasured, rfl⟩
  · rintro ⟨parts, extent, partsMeasured, extentMeasured, rfl⟩
    rw [partsMeasured, ok_bind, extentMeasured]
    rfl

theorem measureAll_cons_eq_ok {circuit : Circuit} {rest : List Circuit}
    {parts : List (Measure Rat)} :
    measureAll symbols settings (circuit :: rest) = .ok parts ↔
      ∃ first others, circuit.measure symbols settings = .ok first ∧
        measureAll symbols settings rest = .ok others ∧ parts = first :: others := by
  simp only [measureAll_eq_ok, List.forall₂_cons_left_iff]

theorem measureAll_append_eq_ok {before after : List Circuit} {parts : List (Measure Rat)} :
    measureAll symbols settings (before ++ after) = .ok parts ↔
      ∃ first last, measureAll symbols settings before = .ok first ∧
        measureAll symbols settings after = .ok last ∧ parts = first ++ last := by
  induction before generalizing parts with
  | nil => simp [measureAll]
  | cons circuit rest ih =>
      rw [List.cons_append, measureAll_cons_eq_ok]
      constructor
      · rintro ⟨measure, others, measured, othersMeasured, rfl⟩
        obtain ⟨first, last, firstMeasured, lastMeasured, rfl⟩ := ih.mp othersMeasured
        exact ⟨measure :: first, last,
          measureAll_cons_eq_ok.mpr ⟨measure, first, measured, firstMeasured, rfl⟩,
          lastMeasured, rfl⟩
      · rintro ⟨first, last, firstMeasured, lastMeasured, rfl⟩
        obtain ⟨measure, others, measured, othersMeasured, rfl⟩ :=
          measureAll_cons_eq_ok.mp firstMeasured
        exact ⟨measure, others ++ last, measured,
          ih.mpr ⟨others, last, othersMeasured, lastMeasured, rfl⟩, rfl⟩

/-- If one of several circuits is replaced by one that looks alike, all of them look
alike. -/
theorem measureAll_replace {before after : List Circuit} {old new : Circuit}
    {parts : List (Measure Rat)}
    (replaced : ∀ {measure}, old.measure symbols settings = .ok measure →
      ∃ other, new.measure symbols settings = .ok other ∧ measure.LooksLike view other)
    (measured : measureAll symbols settings (before ++ old :: after) = .ok parts) :
    ∃ others, measureAll symbols settings (before ++ new :: after) = .ok others ∧
      List.Forall₂ (Measure.LooksLike view) parts others := by
  obtain ⟨first, rest, firstMeasured, restMeasured, rfl⟩ := measureAll_append_eq_ok.mp measured
  obtain ⟨middle, last, middleMeasured, lastMeasured, rfl⟩ :=
    measureAll_cons_eq_ok.mp restMeasured
  obtain ⟨other, otherMeasured, alike⟩ := replaced middleMeasured
  refine ⟨first ++ other :: last, measureAll_append_eq_ok.mpr ⟨first, _, firstMeasured,
    measureAll_cons_eq_ok.mpr ⟨other, last, otherMeasured, lastMeasured, rfl⟩, rfl⟩, ?_⟩
  have same : ∀ measures : List (Measure Rat),
      List.Forall₂ (Measure.LooksLike view) measures measures := fun measures =>
    List.forall₂_same.mpr fun measure _ => .refl measure
  exact List.rel_append (same first) (.cons alike (same last))

/-- A group and a group of the same kind whose parts look alike look alike. -/
theorem GroupKind.looksLike {kind : GroupKind} {circuits otherCircuits : List Circuit}
    {extent other : Extent Rat} {parts others : List (Measure Rat)}
    (isGroup : extent.circuit = kind.group circuits)
    (otherGroup : other.circuit = kind.group otherCircuits)
    (sameBox : extent.nameless = other.nameless)
    (alike : List.Forall₂ (Measure.LooksLike view) parts others) :
    (Measure.node extent parts).LooksLike view (.node other others) := by
  have same := sameBoxes_of_looksLike alike
  refine ⟨sameBox, fun frame => ?_⟩
  rw [Measure.collect_place, Measure.collect_place,
    view.group frame isGroup otherGroup sameBox same, kind.partFrames_eq isGroup,
    kind.partFrames_eq otherGroup, ← kind.frames_nameless, sameBox, same, kind.frames_nameless,
    collect_placeAll alike]

/-- The parts of a nested group are shown where they are shown in the flattened
group, and the nested group itself is not seen. -/
theorem GroupKind.looksLike_flatten {kind : GroupKind} (isKind : kind ∈ kinds)
    {circuits inside flatCircuits : List Circuit} {extent nested flat : Extent Rat}
    {before inner after : List (Measure Rat)}
    (measured : kind.extent settings (kind.group inside) (inner.map Measure.extent) = .ok nested)
    (isGroup : extent.circuit = kind.group circuits)
    (flatGroup : flat.circuit = kind.group flatCircuits)
    (sameBox : extent.nameless = flat.nameless) :
    (Measure.node extent (before ++ .node nested inner :: after)).LooksLike view
      (.node flat (before ++ (inner ++ after))) := by
  refine ⟨sameBox, fun frame => ?_⟩
  have nestedGroup := kind.extent_circuit measured
  obtain ⟨middle, last, frames, flatFrames⟩ := kind.frames_flatten measured extent
    (before.map Measure.extent) (after.map Measure.extent) frame
  rw [Measure.collect_place, Measure.collect_place, view.hidden _ frame isKind isGroup,
    view.hidden _ frame isKind flatGroup, kind.partFrames_eq isGroup,
    kind.partFrames_eq flatGroup, ← kind.frames_nameless flat, ← sameBox, kind.frames_nameless]
  simp only [List.map_append, List.map_cons, Measure.extent] at frames flatFrames ⊢
  rw [frames, flatFrames, placeAll_append (by simp [kind.length_frames]),
    placeAll_append (by simp [kind.length_frames]),
    placeAll_append (by simp [kind.length_frames]), placeAll]
  simp only [Layout.collect_append, List.nil_append]
  rw [Layout.collect_cons, Measure.collect_place, view.hidden _ middle isKind nestedGroup,
    kind.partFrames_eq nestedGroup, List.nil_append]

/-- Twoports with the same links look alike if their targets do. -/
theorem looksLike_network {links otherLinks : List (Link Circuit)}
    {parts others : List (Measure Rat)}
    (sameKinds : links.map Link.kind = otherLinks.map Link.kind)
    (alike : List.Forall₂ (Measure.LooksLike view) parts others) :
    (Measure.network settings links parts).LooksLike view
      (.network settings otherLinks others) := by
  have same := sameBoxes_of_looksLike alike
  let rungs := (links.map Link.kind).zip (parts.map Measure.extent)
  let otherRungs := (otherLinks.map Link.kind).zip (others.map Measure.extent)
  let extent := twoportExtent settings (.twoport links) rungs
  let other := twoportExtent settings (.twoport otherLinks) otherRungs
  have sameRungs : rungs.map namelessLink = otherRungs.map namelessLink := by
    rw [← zip_nameless, sameKinds, same, zip_nameless]
  have sameBox : extent.nameless = other.nameless := by
    rw [← twoportExtent_nameless (.twoport links), sameRungs, twoportExtent_nameless]
  refine ⟨sameBox, fun frame => ?_⟩
  have own : view.own (placement settings extent (parts.map Measure.extent) frame) =
      view.own (placement settings other (others.map Measure.extent) frame) :=
    view.twoport frame rfl rfl sameKinds same
  have frames : partFrames settings extent (parts.map Measure.extent) frame =
      partFrames settings other (others.map Measure.extent) frame := by
    change networkFrames settings frame rungs = networkFrames settings frame otherRungs
    rw [← networkFrames_nameless, sameRungs, networkFrames_nameless]
  change Layout.collect view.own [(Measure.node extent parts).place settings frame] =
    Layout.collect view.own [(Measure.node other others).place settings frame]
  rw [Measure.collect_place, Measure.collect_place, own, frames, collect_placeAll alike]

/-- A flattened circuit is measured and looks as it did before. -/
theorem Circuit.Flattens.exists_looksLike (view : View settings kinds β) {circuit flat : Circuit}
    (flattens : circuit.Flattens kinds flat) {measure : Measure Rat}
    (measured : circuit.measure symbols settings = .ok measure) :
    ∃ flatMeasure, flat.measure symbols settings = .ok flatMeasure ∧
      measure.LooksLike view flatMeasure := by
  induction flattens generalizing measure with
  | @nested kind before inner after isKind =>
      obtain ⟨parts, extent, partsMeasured, extentMeasured, rfl⟩ :=
        kind.measure_eq_ok.mp measured
      obtain ⟨first, rest, firstMeasured, restMeasured, rfl⟩ :=
        measureAll_append_eq_ok.mp partsMeasured
      obtain ⟨middle, last, middleMeasured, lastMeasured, rfl⟩ :=
        measureAll_cons_eq_ok.mp restMeasured
      obtain ⟨innerParts, nested, innerMeasured, nestedMeasured, rfl⟩ :=
        kind.measure_eq_ok.mp middleMeasured
      have flatMeasured := measureAll_append_eq_ok.mpr ⟨first, _, firstMeasured,
        measureAll_append_eq_ok.mpr ⟨innerParts, last, innerMeasured, lastMeasured, rfl⟩, rfl⟩
      rw [List.map_append, List.map_cons] at extentMeasured
      obtain ⟨flatExtent, flatExtentMeasured, sameBox⟩ :=
        kind.extent_flatten (kind.group (before ++ (inner ++ after))) nestedMeasured
          extentMeasured
      rw [← List.map_append, ← List.map_append] at flatExtentMeasured
      exact ⟨_, kind.measure_eq_ok.mpr ⟨_, flatExtent, flatMeasured, flatExtentMeasured, rfl⟩,
        kind.looksLike_flatten isKind nestedMeasured (kind.extent_circuit extentMeasured)
          (kind.extent_circuit flatExtentMeasured) sameBox⟩
  | @part kind before after old new flattens ih =>
      obtain ⟨parts, extent, partsMeasured, extentMeasured, rfl⟩ :=
        kind.measure_eq_ok.mp measured
      obtain ⟨others, othersMeasured, alike⟩ := measureAll_replace ih partsMeasured
      obtain ⟨other, otherMeasured, sameBox⟩ :=
        kind.extent_sameBoxes (sameBoxes_of_looksLike alike) extentMeasured
      exact ⟨_, kind.measure_eq_ok.mpr ⟨others, other, othersMeasured, otherMeasured, rfl⟩,
        kind.looksLike (kind.extent_circuit extentMeasured) (kind.extent_circuit otherMeasured)
          sameBox alike⟩
  | @target kind before after old new flattens ih =>
      rw [Circuit.measure] at measured
      obtain ⟨parts, partsMeasured, measured⟩ := exists_of_bind_eq_ok measured
      cases measured
      rw [measureTargets_eq, List.map_append, List.map_cons] at partsMeasured
      obtain ⟨others, othersMeasured, alike⟩ := measureAll_replace ih partsMeasured
      let links := before ++ ⟨kind, new⟩ :: after
      refine ⟨.network settings links others, ?_, looksLike_network (by simp [links]) alike⟩
      rw [Circuit.measure, measureTargets_eq, List.map_append, List.map_cons, othersMeasured]
      rfl

/-- However often a circuit is flattened, it looks as it did before. -/
theorem exists_looksLike_of_flattened (view : View settings kinds β) {circuit flat : Circuit}
    (flattened : Relation.ReflTransGen (Circuit.Flattens kinds) circuit flat)
    {measure : Measure Rat} (measured : circuit.measure symbols settings = .ok measure) :
    ∃ flatMeasure, flat.measure symbols settings = .ok flatMeasure ∧
      measure.LooksLike view flatMeasure := by
  induction flattened with
  | refl => exact ⟨measure, measured, .refl measure⟩
  | tail _ step ih =>
      obtain ⟨middle, middleMeasured, alike⟩ := ih
      obtain ⟨last, lastMeasured, lastAlike⟩ := step.exists_looksLike view middleMeasured
      exact ⟨last, lastMeasured, alike.trans lastAlike⟩

/-! ## Layouts of documents -/

/-- The placed elements of a layout, in the order of its walk. -/
def Layout.placedElements (layout : Layout Rat) : List (Placement Rat) :=
  (layout.walk.map Layout.placement).filter fun placement => placement.element?.isSome

theorem Layout.collect_elements (layout : Layout Rat) :
    collect (View.elements settings kinds).own [layout] = layout.placedElements := by
  rw [placedElements, walk_eq_nodes, collect, nodesOfAll, nodesOfAll, List.append_nil]
  induction layout.nodes with
  | nil => rfl
  | cons node rest ih =>
      rw [List.flatMap_cons, ih, List.map_cons, List.filter_cons]
      simp only [View.elements]
      split <;> rfl

theorem Layout.collect_wires (layout : Layout Rat) :
    collect Placement.wires [layout] = layout.allWires := by
  rw [allWires, walk_eq_nodes, collect, nodesOfAll, nodesOfAll, List.append_nil]

/-- The same size, and the same port offsets. -/
structure Placement.SameOutside (first second : Placement Rat) : Prop where
  width : first.width = second.width
  height : first.height = second.height
  leftPort : first.leftPort = second.leftPort
  rightPort : first.rightPort = second.rightPort

theorem placement_sameOutside {extent other : Extent Rat} (parts others : List (Extent Rat))
    (frame : Frame Rat) (sameBox : extent.nameless = other.nameless) :
    (placement settings extent parts frame).SameOutside
      (placement settings other others frame) := by
  have bare : ∀ (extent : Extent Rat) (parts : List (Extent Rat)),
      (placement settings extent parts frame).SameOutside
        (barePlacement extent.nameless frame) := by
    intro extent parts
    unfold placement
    split <;> exact ⟨rfl, rfl, rfl, rfl⟩
  have first := bare extent parts
  have second := bare other others
  rw [← sameBox] at second
  exact ⟨first.width.trans second.width.symm, first.height.trans second.height.symm,
    first.leftPort.trans second.leftPort.symm, first.rightPort.trans second.rightPort.symm⟩

/-- A document in which nested groups of one kind are flattened, wherever they are,
has a layout of the same size with the same ports and with every element in its
place.  If only series groups are flattened, it has the same wires too. -/
theorem flattening_keeps_layout (symbols : SymbolLibrary Rat) (settings : LayoutSettings Rat)
    {kinds : Set GroupKind} {text : String} {circuit flat : Circuit}
    (accepted : Reading.parse text = .ok circuit)
    (known : ∀ element ∈ circuit.elements, (symbols element.kind).isSome)
    (flattened : Relation.ReflTransGen (Circuit.Flattens kinds) circuit flat) :
    ∃ layout flatLayout, circuit.layout symbols settings = .ok layout ∧
      flat.layout symbols settings = .ok flatLayout ∧
      layout.placement.SameOutside flatLayout.placement ∧
      layout.placedElements = flatLayout.placedElements ∧
      (GroupKind.parallel ∉ kinds → layout.allWires = flatLayout.allWires) := by
  obtain ⟨measure, measured⟩ : ∃ measure, circuit.measure symbols settings = .ok measure :=
    (Reading.wellFormed_of_parse accepted).exists_measure known
  obtain ⟨flatMeasure, flatMeasured, alike⟩ :=
    exists_looksLike_of_flattened (View.elements settings kinds) flattened measured
  refine ⟨_, _, Circuit.layout_of_measure measured, Circuit.layout_of_measure flatMeasured,
    ?_, ?_, ?_⟩
  · rw [Measure.place_placement, Measure.place_placement]
    exact placement_sameOutside _ _ _ alike.sameBox
  · rw [← Layout.collect_elements, alike.shown, Layout.collect_elements]
  · intro seriesOnly
    obtain ⟨other, otherMeasured, wiresAlike⟩ :=
      exists_looksLike_of_flattened (View.wires settings seriesOnly) flattened measured
    obtain rfl : other = flatMeasure := Except.ok.inj (otherMeasured.symm.trans flatMeasured)
    have shown := wiresAlike.shown ⟨settings.origin, false⟩
    rwa [← Layout.collect_wires, ← Layout.collect_wires]

theorem flattening_keeps_layout_shunt :
    ∃ circuit seriesFlat flat layout seriesLayout flatLayout,
      Reading.parse "-C6|((R1||C2)||(L3+(V4+R5)))" = .ok circuit ∧
      Reading.parse "-C6|((R1||C2)||(L3+V4+R5))" = .ok seriesFlat ∧
      Reading.parse "-C6|(R1||C2||(L3+V4+R5))" = .ok flat ∧
      circuit.layout .standard .crowded = .ok layout ∧
      seriesFlat.layout .standard .crowded = .ok seriesLayout ∧
      flat.layout .standard .crowded = .ok flatLayout ∧
      layout.allWires = seriesLayout.allWires ∧
      layout.placement.SameOutside flatLayout.placement ∧
      layout.placedElements = flatLayout.placedElements := by
  let branch : Circuit :=
    .parallel [.element ⟨.resistor, some "1"⟩, .element ⟨.capacitor, some "2"⟩]
  let rest : List Circuit :=
    [.element ⟨.voltageSource, some "4"⟩, .element ⟨.resistor, some "5"⟩]
  let member : Circuit := .element ⟨.inductor, some "3"⟩
  let link : Link Circuit := ⟨.series, .element ⟨.capacitor, some "6"⟩⟩
  have parsed : Reading.parse "-C6|((R1||C2)||(L3+(V4+R5)))" = .ok (.twoport [link,
      ⟨.shunt, .parallel [branch, .series [member, .series rest]]⟩]) := by
    apply eq_ok_of_toOption
    decide +kernel
  have parsedSeries : Reading.parse "-C6|((R1||C2)||(L3+V4+R5))" = .ok (.twoport [link,
      ⟨.shunt, .parallel [branch, .series (member :: rest)]⟩]) := by
    apply eq_ok_of_toOption
    decide +kernel
  have seriesStep {kinds : Set GroupKind} (isKind : .series ∈ kinds) : Circuit.Flattens kinds
      (.twoport [link, ⟨.shunt, .parallel [branch, .series [member, .series rest]]⟩])
      (.twoport [link, ⟨.shunt, .parallel [branch, .series (member :: rest)]⟩]) :=
    .target .shunt [link] [] (.part .parallel [branch] []
      (@Circuit.Flattens.nested kinds .series [member] rest [] isKind))
  have parallelStep : Circuit.Flattens Set.univ
      (.twoport [link, ⟨.shunt, .parallel [branch, .series (member :: rest)]⟩])
      (.twoport [link, ⟨.shunt, .parallel [.element ⟨.resistor, some "1"⟩,
        .element ⟨.capacitor, some "2"⟩, .series (member :: rest)]⟩]) :=
    .target .shunt [link] [] (@Circuit.Flattens.nested _ .parallel [] _ _ trivial)
  obtain ⟨layout, seriesLayout, placed, seriesPlaced, -, -, sameWires⟩ :=
    flattening_keeps_layout .standard .crowded parsed (fun _ _ => rfl)
      (.single (seriesStep (Set.mem_singleton GroupKind.series)))
  obtain ⟨other, flatLayout, otherPlaced, flatPlaced, sameOutside, sameElements, -⟩ :=
    flattening_keeps_layout .standard .crowded parsed (fun _ _ => rfl)
      ((Relation.ReflTransGen.single (seriesStep (Set.mem_univ GroupKind.series))).tail
        parallelStep)
  obtain rfl : other = layout := Except.ok.inj (otherPlaced.symm.trans placed)
  refine ⟨_, _, _, other, seriesLayout, flatLayout, parsed, parsedSeries, ?_, placed,
    seriesPlaced, flatPlaced, sameWires (by simp), sameOutside, sameElements⟩
  apply eq_ok_of_toOption
  decide +kernel

end Schematic
