import Schematic.Proofs.Connectivity.Labelled
import Schematic.Proofs.Tiling.Nesting

/-!
# Drawings are planar

Wires of a layout that have a point in common belong to one electrical node, be
it that they cross, touch or overlap, and no wire runs through an element.
-/

namespace Schematic

namespace Wire

/-- A point of the straight line between the ends of a wire. -/
def Passes (wire : Wire Rat) (point : Point Rat) : Prop :=
  ∃ share : Rat, 0 ≤ share ∧ share ≤ 1 ∧ point =
    ⟨wire.start.x + share * (wire.finish.x - wire.start.x),
      wire.start.y + share * (wire.finish.y - wire.start.y)⟩

variable {wire other : Wire Rat} {point : Point Rat}

theorem Passes.contains (passes : wire.Passes point) : wire.box.Contains point := by
  obtain ⟨share, low, high, rfl⟩ := passes
  have between : ∀ start finish : Rat, min start finish ≤ start + share * (finish - start) ∧
      start + share * (finish - start) ≤ max start finish := by
    intro start finish
    rcases le_total start finish with ordered | ordered
    · rw [min_eq_left ordered, max_eq_right ordered]
      constructor <;> nlinarith
    · rw [min_eq_right ordered, max_eq_left ordered]
      constructor <;> nlinarith
  rw [Box.contains_iff]
  exact ⟨between _ _, between _ _⟩

/-- Wires that are apart have no point in common. -/
theorem Apart.not_contains (apart : wire.Apart other) (contains : wire.box.Contains point) :
    ¬other.box.Contains point := by
  have notBefore : ∀ (axis : Axis) (first second : Wire Rat), first.Before axis second →
      first.box.Contains point → second.box.Contains point → False := by
    intro axis first second before onFirst onSecond
    have gap : first.box.high axis + 1 ≤ second.box.low axis :=
      le_low_box.mpr fun later isLater => by
        have reach : first.box.high axis ≤ axis.of later - 1 :=
          high_box_le.mpr fun earlier isEarlier => by
            linarith [before earlier isEarlier later isLater]
        linarith
    linarith [(onFirst axis).2, (onSecond axis).1]
  intro otherContains
  obtain ⟨axis, forwards | backwards⟩ := apart
  · exact notBefore axis wire other forwards contains otherContains
  · exact notBefore axis other wire backwards otherContains contains

end Wire

/-- No wire of a tiled layout runs through an element. -/
theorem Layout.wires_beside {layout : Layout Rat} (tiled : ∀ node ∈ layout.nodes, node.IsTiled) :
    ∀ wire ∈ layout.allWires, ∀ node ∈ layout.nodes, node.placement.element?.isSome →
      wire.box.Beside node.box := by
  induction layout using Layout.induct with
  | node placement children ih =>
      have root := tiled _ (mem_nodes.mpr (.inl rfl))
      intro wire isWire node isNode isElement
      rcases mem_nodes.mp isNode with rfl | ⟨child, isChild, inChild⟩
      · obtain ⟨noParts, noWires⟩ := root.plain isElement
        rcases mem_allWires_iff.mp isWire with isOwn | ⟨part, isPart, -⟩
        · rw [noWires] at isOwn
          cases isOwn
        · rw [noParts] at isPart
          cases isPart
      · -- A wire of the node itself avoids the tile that holds the element, and a wire of
        -- another part stays in the tile of that part.
        have childTiled := tiled_child tiled isChild
        have within := node_within childTiled node inChild
        rcases mem_allWires_iff.mp isWire with isOwn | ⟨part, isPart, inPart⟩
        · exact (root.tiling.clear wire isOwn _ (List.mem_map_of_mem isChild)).mono (.refl _) within
        · obtain ⟨index, foundPart⟩ := List.mem_iff_getElem?.mp isPart
          obtain ⟨other, foundChild⟩ := List.mem_iff_getElem?.mp isChild
          by_cases same : index = other
          · subst same
            obtain rfl : part = child := Option.some_inj.mp (foundPart.symm.trans foundChild)
            exact ih part isPart childTiled wire inPart node inChild isElement
          · have partTiled := tiled_child tiled isPart
            obtain ⟨owner, isOwner, isOwn⟩ := mem_allWires.mp inPart
            have wireWithin := ((partTiled owner isOwner).tiling.wired wire isOwn).trans
              (node_within partTiled owner isOwner)
            exact (root.children_beside foundPart foundChild same).mono wireWithin within

section

variable {settings : LayoutSettings Rat} {measure : Measure Rat} {frame : Frame Rat}

theorem Layout.end_isVertex {layout : Layout Rat} {wire : Wire Rat}
    (isWire : wire ∈ layout.allWires) {point : Point Rat} (isEnd : point ∈ wire.ends) :
    Network.key point ∈ (Network.ofLayout layout).vertices :=
  Network.mem_vertices.mpr (.inr ⟨Network.keyWire wire, List.mem_map_of_mem isWire,
    Network.mem_ends_keyWire.mpr ⟨point, isEnd, rfl⟩⟩)

theorem Layout.joined_end {layout : Layout Rat} {wire : Wire Rat} (isWire : wire ∈ layout.allWires)
    {point : Point Rat} (isEnd : point ∈ wire.ends) :
    Relation.EqvGen (Network.Edge (Network.ofLayout layout).edges) (Network.key wire.start)
      (Network.key point) := by
  simp only [Wire.ends, List.mem_cons, List.not_mem_nil, or_false] at isEnd
  rcases isEnd with rfl | rfl
  · exact .refl _
  · exact Network.joined_wire (List.mem_map_of_mem isWire)

/-- Wires with a common point are joined. -/
theorem joined_of_meet (sized : measure.SizedRoot SymbolLibrary.standard settings)
    (nonnegative : settings.IsNonnegative) (upright : frame.rotated = false)
    {wire other : Wire Rat} (isWire : wire ∈ (measure.place settings frame).allWires)
    (isOther : other ∈ (measure.place settings frame).allWires) {point : Point Rat}
    (onWire : wire.box.Contains point) (onOther : other.box.Contains point) :
    Relation.EqvGen (Network.Edge (Network.ofLayout (measure.place settings frame)).edges)
      (Network.key wire.start) (Network.key other.start) := by
  -- The label of a point is its electrical node.
  let labelOf := fun point : Point Rat =>
    Quot.mk (Network.Edge (Network.ofLayout (measure.place settings frame)).edges)
      (Network.key point)
  have respects : (measure.place settings frame).Respects labelOf := fun wire isWire =>
    Quot.eqvGen_sound (Network.joined_wire (List.mem_map_of_mem isWire))
  obtain ⟨picture, separated, own⟩ := sized.exists_ownLabels nonnegative frame respects
  have wireMark := own wire isWire
  have otherMark := own other isOther
  rcases separated_image upright separated wireMark otherMark with same | apart
  · exact Quot.eqvGen_exact same
  · exact absurd onOther (apart.not_contains onWire)

end

/-- In the layout of a document, wires that share a point belong to one electrical
node, and no wire meets the inside of an element. -/
theorem drawing_is_planar (settings : LayoutSettings Rat) (nonnegative : settings.IsNonnegative)
    (text : String) (circuit : Circuit) (parsed : Reading.parse text = .ok circuit) :
    ∃ layout, circuit.layout .standard settings = .ok layout ∧
      (∀ wire ∈ layout.allWires, ∀ other ∈ layout.allWires, ∀ point,
        wire.Passes point → other.Passes point →
          ∃ node, ∀ stop ∈ wire.ends ++ other.ends,
            (Network.ofLayout layout).nodeOf? stop = some node) ∧
      ∀ wire ∈ layout.allWires, ∀ node ∈ layout.walk, node.placement.element?.isSome →
        ∀ point, wire.Passes point → ¬node.box.Surrounds point := by
  have wellFormed := Reading.wellFormed_of_parse parsed
  obtain ⟨measure, measured⟩ := @Circuit.WellFormed.exists_measure _ _ .standard settings _
    wellFormed fun _ _ => rfl
  obtain ⟨sized, rfl⟩ := wellFormed.sized measured
  refine ⟨_, Circuit.layout_of_measure measured, ?_, ?_⟩
  · intro wire isWire other isOther point onWire onOther
    have closed : (Network.ofLayout (measure.place settings ⟨settings.origin, false⟩)).Closed :=
      Network.closed_ofWires
    have isStart := Layout.end_isVertex isWire List.mem_cons_self
    have meet := joined_of_meet sized nonnegative rfl isWire isOther onWire.contains
      onOther.contains
    obtain ⟨node, isNode⟩ := Option.isSome_iff_exists.mp (Network.nodeOf?_isSome isStart)
    refine ⟨node, fun stop isStop => isNode ▸ Eq.symm ?_⟩
    rcases List.mem_append.mp isStop with isEnd | isEnd
    · exact (closed.nodeOf?_eq_iff isStart (Layout.end_isVertex isWire isEnd)).mpr
        (Layout.joined_end isWire isEnd)
    · exact (closed.nodeOf?_eq_iff isStart (Layout.end_isVertex isOther isEnd)).mpr
        (meet.trans _ _ _ (Layout.joined_end isOther isEnd))
  · intro wire isWire node isNode isElement point onWire
    rw [Layout.walk_eq_nodes] at isNode
    have tiled := sized.tiled nonnegative SymbolLibrary.standard_isCentred ⟨settings.origin, false⟩
    exact (Layout.wires_beside tiled wire isWire node isNode isElement).not_surrounds
      onWire.contains

theorem drawing_is_planar_bus :
    tight.IsNonnegative ∧ ∃ circuit layout, Reading.parse "(R1||C1)" = .ok circuit ∧
      circuit.layout .standard tight = .ok layout ∧
      ∃ upper ∈ layout.allWires, ∃ lower ∈ layout.allWires, upper ≠ lower ∧
        ∃ node, ∀ stop ∈ upper.ends ++ lower.ends,
          (Network.ofLayout layout).nodeOf? stop = some node := by
  have nonnegative : tight.IsNonnegative := ⟨le_rfl, le_rfl, le_rfl, le_rfl⟩
  let upper : Wire Rat := ⟨⟨-7, 46 / 3⟩, ⟨-7, 106 / 3⟩⟩
  let lower : Wire Rat := ⟨⟨-7, 106 / 3⟩, ⟨-7, 151 / 3⟩⟩
  have readable : (Reading.parse "(R1||C1)").toOption.isSome := by decide +kernel
  obtain ⟨circuit, parsed⟩ := Option.isSome_iff_exists.mp readable
  have parsed := eq_ok_of_toOption parsed
  obtain ⟨layout, placed, meet, -⟩ := drawing_is_planar tight nonnegative _ circuit parsed
  have wires : ((Reading.parse "(R1||C1)").toOption.bind fun circuit =>
      (circuit.layout .standard tight).toOption).map (fun layout =>
        (layout.nodes.flatMap fun node => node.placement.wires).take 2) =
          some [upper, lower] := by decide +kernel
  rw [parsed] at wires
  simp only [Except.toOption, Option.bind_some, placed, Option.map_some, Option.some_inj,
    ← Layout.walk_eq_nodes] at wires
  have each : ∀ wire ∈ [upper, lower], wire ∈ layout.allWires := fun wire isWire =>
    List.mem_of_mem_take (wires ▸ isWire)
  have isUpper := each upper (by simp)
  have isLower := each lower (by simp)
  refine ⟨nonnegative, circuit, layout, parsed, placed, upper, isUpper, lower, isLower,
    by decide +kernel, meet upper isUpper lower isLower ⟨-7, 106 / 3⟩ ⟨1, ?_⟩ ⟨0, ?_⟩⟩ <;>
    simp [upper, lower]

end Schematic
