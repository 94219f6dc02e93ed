import Schematic.Proofs.Connectivity.Faithful
import Schematic.Proofs.Tiling.Tiles

/-!
# Boxes of layouts

The parts of a circuit are sized before they are placed.  This file proves that
they fit when they are placed: in every layout the boxes of the parts of a node
are inside of its box and beside each other, at any depth and however often the
axes are exchanged on the way down.
-/

namespace Schematic

def Placement.box (placement : Placement Rat) : Box Rat :=
  ⟨placement.origin.x, placement.origin.y, placement.bottomRight.x, placement.bottomRight.y⟩

namespace Layout

def box (layout : Layout Rat) : Box Rat :=
  layout.placement.box

/-- The boxes of the parts of a node tile its box, with the wires of the node
between them. -/
structure IsTiled (node : Layout Rat) : Prop where
  tiling : IsTiling node.box (node.children.map box) (· ∈ node.placement.wires)
  /-- A group has no room around its parts. -/
  touched : node.placement.circuit.IsGroup → node.box.Touched (node.children.map box)
  /-- An element has neither parts nor wires. -/
  plain : node.placement.element?.isSome → node.children = [] ∧ node.placement.wires = []
  /-- The size is not negative. -/
  proper : ∀ axis, node.box.low axis ≤ node.box.high axis

end Layout

/-! ## Placed tiles -/

section

variable {settings : LayoutSettings Rat} {frame : Frame Rat} {measure : Measure Rat}

theorem placement_box {extent : Extent Rat} {parts : List (Extent Rat)} :
    (placement settings extent parts frame).box = frame.box extent.box := by
  rw [Placement.box, placement_origin, placement_bottomRight]
  cases rotated : frame.rotated <;>
    simp [Frame.point, Frame.offset, Frame.box, Box.moved, Box.transposed, Extent.box, rotated,
      Point.transposed]

theorem Measure.place_box : (measure.place settings frame).box = frame.box measure.extent.box := by
  rw [Layout.box, place_placement, placement_box]

theorem Measure.place_proper (wide : 0 ≤ measure.extent.width) (high : 0 ≤ measure.extent.height)
    (axis : Axis) :
    (measure.place settings frame).box.low axis ≤ (measure.place settings frame).box.high axis := by
  rw [place_box, Frame.low_box, Frame.high_box]
  refine add_le_add_right ?_ _
  cases frame.axis axis
  · exact wide
  · exact high

theorem group_boxes (isGroup : measure.circuit.IsGroup) :
    (measure.place settings frame).children.map Layout.box =
      (partTiles settings measure.extent measure.extents).map frame.box := by
  apply List.ext_getElem?
  intro index
  rw [List.getElem?_map, place_group_child isGroup, List.getElem?_map, partTiles,
    List.getElem?_mapIdx, Measure.extents, List.getElem?_map]
  cases measure.parts[index]? with
  | none => rfl
  | some part =>
      simp only [Option.map_some, Option.some_inj]
      rw [Measure.place_box, Frame.box_shifted]

theorem network_boxes {links : List (Link Circuit)} {parts : List (Measure Rat)} :
    ((Measure.network settings links parts).place settings frame).children.map Layout.box =
      (rungTiles settings (rungs links parts)).map frame.box := by
  have turned : ∀ index kind (target : Extent Rat),
      (rungFrame settings links parts frame index kind target).box target.box =
        frame.box (rungTile settings (rungs links parts) index (kind, target)) := by
    intro index kind target
    cases kind with
    | series => exact frame.box_shifted _ _
    | shunt => exact frame.box_turned _ _
  apply List.ext_getElem?
  intro index
  apply Option.ext
  intro box
  rw [List.getElem?_map, List.getElem?_map, rungTiles, List.getElem?_mapIdx]
  simp only [Option.map_eq_some_iff, place_network_child, rungs_getElem?]
  constructor
  · rintro ⟨_, ⟨link, part, foundLink, foundPart, rfl⟩, rfl⟩
    refine ⟨_, ⟨_, ⟨link, part, foundLink, foundPart, rfl⟩, rfl⟩, ?_⟩
    rw [Measure.place_box, turned]
  · rintro ⟨_, ⟨_, ⟨link, part, foundLink, foundPart, rfl⟩, rfl⟩, rfl⟩
    refine ⟨_, ⟨link, part, foundLink, foundPart, rfl⟩, ?_⟩
    rw [Measure.place_box, turned]

end

/-! ## Every node -/

section

variable {symbols : SymbolLibrary Rat} {settings : LayoutSettings Rat} {measure : Measure Rat}
  (nonnegative : settings.IsNonnegative)

theorem tiled_group (isGroup : measure.circuit.IsGroup) (centred : measure.extent.IsCentred)
    {wires : Wire Rat → Prop}
    (tiling : IsTiling measure.extent.box (partTiles settings measure.extent measure.extents) wires)
    (touched : measure.extent.box.Touched (partTiles settings measure.extent measure.extents))
    {frame : Frame Rat}
    (wired : ∀ wire ∈ (measure.place settings frame).placement.wires,
      ∃ inner, wires inner ∧ wire = frame.image inner) :
    (measure.place settings frame).IsTiled where
  tiling := by
    rw [group_boxes isGroup, Measure.place_box]
    exact (tiling.image frame).mono wired
  touched := by
    intro _
    rw [group_boxes isGroup, Measure.place_box]
    exact frame.box_touched touched
  plain := by
    intro isElement
    rw [Placement.element?, Measure.place_placement, placement_circuit] at isElement
    rcases isGroup with ⟨circuits, same⟩ | ⟨circuits, same⟩ <;>
      rw [show measure.extent.circuit = _ from same] at isElement <;> cases isElement
  proper := Measure.place_proper centred.wide centred.high

include nonnegative in
theorem Measure.Sized.tiled (sized : measure.Sized symbols settings)
    (centred : symbols.IsCentred) (frame : Frame Rat) :
    ∀ node ∈ (measure.place settings frame).nodes, node.IsTiled := by
  induction sized generalizing frame with
  | @element element symbol known =>
      refine forall_nodes ?_ fun part isPart => by cases isPart
      have symbolCentred := centred _ _ known
      exact {
        tiling := ⟨nofun, .nil, nofun, nofun⟩
        touched := by rintro (⟨_, isSeries⟩ | ⟨_, isParallel⟩) <;> contradiction
        plain := fun _ => ⟨rfl, rfl⟩
        proper := place_proper symbolCentred.wide.le symbolCentred.high.le }
  | @series parts extent two sizedParts measured ih =>
      have centredParts : ∀ extent ∈ parts.map Measure.extent, extent.IsCentred :=
        List.forall_mem_map.mpr fun part isPart =>
          (sizedParts part isPart).isCentred centred nonnegative
      obtain ⟨tiling, touched⟩ := @isTiling_series settings _ _ _ measured centredParts
      have sized := Sized.series two sizedParts measured
      refine forall_nodes (tiled_group (isGroup_series measured)
        (sized.isCentred centred nonnegative) tiling touched ?_) ih
      intro wire isWire
      rw [place_placement, placement, show (node extent parts).extent.circuit = _ from
        seriesExtent_circuit measured] at isWire
      cases isWire
  | @parallel parts extent two sizedParts measured ih =>
      have centredParts : ∀ extent ∈ parts.map Measure.extent, extent.IsCentred :=
        List.forall_mem_map.mpr fun part isPart =>
          (sizedParts part isPart).isCentred centred nonnegative
      obtain ⟨tiling, touched⟩ := isTiling_parallel nonnegative measured centredParts
      have sized := Sized.parallel two sizedParts measured
      refine forall_nodes (tiled_group (isGroup_parallel measured)
        (sized.isCentred centred nonnegative) tiling touched ?_) ih
      intro wire isWire
      rw [place_placement, placement, show (node extent parts).extent.circuit = _ from
        parallelExtent_circuit measured] at isWire
      obtain ⟨side, inner, isGroupWire, same⟩ := mem_parallelWires isWire
      exact ⟨inner, ⟨side, isGroupWire⟩, same⟩

include nonnegative in
theorem tiled_network {links : List (Link Circuit)} {parts : List (Measure Rat)}
    (centred : ∀ part ∈ parts, part.extent.IsCentred) (frame : Frame Rat) :
    ((Measure.network settings links parts).place settings frame).IsTiled := by
  have isTwoport : (Measure.network settings links parts).extent.circuit = .twoport links := rfl
  have rungsCentred : ∀ rung ∈ rungs links parts, rung.2.IsCentred := by
    intro rung isRung
    obtain ⟨index, found⟩ := List.mem_iff_getElem?.mp isRung
    obtain ⟨link, part, -, foundPart, rfl⟩ := rungs_getElem?.mp found
    exact centred part (List.mem_of_getElem? foundPart)
  have tiling := isTiling_twoport nonnegative rungsCentred (.twoport links)
  refine ⟨?_, ?_, ?_, Measure.place_proper ?_ ?_⟩
  · rw [network_boxes, Measure.place_box]
    refine (tiling.image frame).mono fun wire isWire => ?_
    rw [Measure.place_placement, twoport_wires isTwoport, mem_slotWires] at isWire
    obtain ⟨index, slot, foundSlot, isWire⟩ := isWire
    rw [linkSlots_getElem?_zero, Option.map_eq_some_iff] at foundSlot
    obtain ⟨rung, foundRung, rfl⟩ := foundSlot
    obtain ⟨grounded, inner, isRungWire, same⟩ := LinkSlot.exists_rungWire isWire
    exact ⟨inner, ⟨index, rung, grounded, foundRung, isRungWire⟩, same⟩
  · rintro (⟨_, isSeries⟩ | ⟨_, isParallel⟩)
    · rw [Measure.place_placement, placement_circuit] at isSeries
      cases isSeries
    · rw [Measure.place_placement, placement_circuit] at isParallel
      cases isParallel
  · rw [Placement.element?, Measure.place_placement, placement_circuit]
    intro isElement
    cases isElement
  · change 0 ≤ Scalar.sum _
    rw [Scalar.sum_eq]
    exact List.sum_nonneg (slotWidths_nonneg rungsCentred)
  · obtain ⟨low, high⟩ := signal_bounds nonnegative rungsCentred
    exact low.trans high

include nonnegative in
/-- Every node of the layout of a circuit is tiled. -/
theorem Measure.SizedRoot.tiled (sized : measure.SizedRoot symbols settings)
    (centred : symbols.IsCentred) (frame : Frame Rat) :
    ∀ node ∈ (measure.place settings frame).nodes, node.IsTiled := by
  cases sized with
  | part sized => exact sized.tiled nonnegative centred frame
  | twoport sized sameParts =>
      exact Measure.forall_nodes
        (tiled_network nonnegative (fun part isPart =>
          (sized part isPart).isCentred centred nonnegative) frame)
        fun part isPart frame => (sized part isPart).tiled nonnegative centred frame

end

/-! ## From parts to the whole -/

namespace Layout

variable {layout : Layout Rat}

theorem IsTiled.child_within {child : Layout Rat} (tiled : layout.IsTiled)
    (isChild : child ∈ layout.children) : child.box.Within layout.box :=
  tiled.tiling.nested child.box (List.mem_map_of_mem isChild)

theorem IsTiled.children_beside (tiled : layout.IsTiled) {index other : Nat}
    {first second : Layout Rat} (isFirst : layout.children[index]? = some first)
    (isSecond : layout.children[other]? = some second) (different : index ≠ other) :
    first.box.Beside second.box := by
  have beside := List.pairwise_map.mp tiled.tiling.beside
  rw [List.pairwise_iff_getElem] at beside
  obtain ⟨indexLt, rfl⟩ := List.getElem?_eq_some_iff.mp isFirst
  obtain ⟨otherLt, rfl⟩ := List.getElem?_eq_some_iff.mp isSecond
  rcases Nat.lt_or_gt_of_ne different with before | after
  · exact beside index other indexLt otherLt before
  · exact (beside other index otherLt indexLt after).symm

theorem tiled_child {child : Layout Rat} (tiled : ∀ node ∈ layout.nodes, node.IsTiled)
    (isChild : child ∈ layout.children) : ∀ node ∈ child.nodes, node.IsTiled :=
  fun node isNode => tiled node (mem_nodes.mpr (.inr ⟨child, isChild, isNode⟩))

theorem node_within (tiled : ∀ node ∈ layout.nodes, node.IsTiled) :
    ∀ node ∈ layout.nodes, node.box.Within layout.box := by
  induction layout using Layout.induct with
  | node placement children ih =>
      intro node isNode
      rcases mem_nodes.mp isNode with rfl | ⟨child, isChild, inChild⟩
      · exact .refl _
      · have root := tiled _ (mem_nodes.mpr (.inl rfl))
        exact (ih child isChild (tiled_child tiled isChild) node inChild).trans
          (root.child_within isChild)

/-- Elements at different paths of a tiled layout are beside each other. -/
theorem elements_beside (tiled : ∀ node ∈ layout.nodes, node.IsTiled) {path otherPath : List Nat}
    {node other : Layout Rat} (found : layout.nodeAt? path = some node)
    (otherFound : layout.nodeAt? otherPath = some other)
    (isElement : node.placement.element?.isSome) (otherElement : other.placement.element?.isSome)
    (different : path ≠ otherPath) : node.box.Beside other.box := by
  have noParts : ∀ {leaf inner : Layout Rat} {index path}, leaf.IsTiled →
      leaf.placement.element?.isSome → leaf.nodeAt? (index :: path) ≠ some inner := by
    intro leaf inner index path leafTiled isLeaf deeper
    rw [nodeAt?, (leafTiled.plain isLeaf).1] at deeper
    cases deeper
  -- Both paths are followed until they part; below that the boxes are in siblings.
  induction path generalizing layout otherPath with
  | nil =>
      cases found
      cases otherPath with
      | nil => exact absurd rfl different
      | cons index rest =>
          exact absurd otherFound (noParts (tiled _ (mem_nodes.mpr (.inl rfl))) isElement)
  | cons index path ih =>
      have root := tiled _ (mem_nodes.mpr (.inl rfl))
      cases otherPath with
      | nil =>
          cases otherFound
          exact absurd found (noParts root otherElement)
      | cons otherIndex otherPath =>
          obtain ⟨child, isChild, found⟩ := Option.bind_eq_some_iff.mp found
          obtain ⟨otherChild, otherIsChild, otherFound⟩ := Option.bind_eq_some_iff.mp otherFound
          have childTiled := tiled_child tiled (List.mem_of_getElem? isChild)
          have otherTiled := tiled_child tiled (List.mem_of_getElem? otherIsChild)
          by_cases same : index = otherIndex
          · subst same
            obtain rfl : child = otherChild := Option.some_inj.mp (isChild.symm.trans otherIsChild)
            exact ih childTiled found otherFound fun samePath => different (by rw [samePath])
          · exact (root.children_beside isChild otherIsChild same).mono
              (node_within childTiled _ (mem_nodes_of_nodeAt? found))
              (node_within otherTiled _ (mem_nodes_of_nodeAt? otherFound))

/-- The box around everything that is placed is the box of the root. -/
theorem ofLayout_eq_box (tiled : ∀ node ∈ layout.nodes, node.IsTiled) :
    Box.ofLayout layout = layout.box := by
  have isRoot : layout ∈ layout.walk := by
    rw [walk_eq_nodes]
    exact mem_nodes.mpr (.inl rfl)
  have corners : ∀ node ∈ layout.nodes, layout.box.Contains node.placement.origin ∧
      layout.box.Contains node.placement.bottomRight := by
    intro node isNode
    have within := node_within tiled node isNode
    have proper := (tiled node isNode).proper
    exact ⟨(Box.contains_iff.mpr ⟨⟨le_rfl, proper .horizontal⟩, le_rfl, proper .vertical⟩).mono
      within, (Box.contains_iff.mpr ⟨⟨proper .horizontal, le_rfl⟩, proper .vertical, le_rfl⟩).mono
      within⟩
  rw [Box.ofLayout]
  refine Box.around_eq ?_ List.mem_cons_self (List.mem_cons_of_mem _ ?_)
  · intro point isPoint
    rcases List.mem_cons.mp isPoint with rfl | later
    · exact (corners layout (mem_nodes.mpr (.inl rfl))).1
    · obtain ⟨node, isNode, isCorner⟩ := List.mem_flatMap.mp later
      rw [walk_eq_nodes] at isNode
      simp only [List.mem_cons, List.not_mem_nil, or_false] at isCorner
      rcases isCorner with rfl | rfl
      · exact (corners node isNode).1
      · exact (corners node isNode).2
  · exact List.mem_flatMap.mpr ⟨layout, isRoot, by simp [box, Placement.box]⟩

/-- How the boxes of a node, its parts and its wires lie to each other. -/
structure Nests (node : Layout Rat) : Prop where
  /-- Every part is inside of the node. -/
  parts : ∀ child ∈ node.children, child.box.Within node.box
  /-- Every wire ends inside of the node. -/
  wires : ∀ wire ∈ node.placement.wires, ∀ point ∈ wire.ends, node.box.Contains point
  /-- No point is in the interiors of two parts. -/
  disjoint : node.children.Pairwise fun first second =>
    ∀ point, first.box.Surrounds point → ¬second.box.Surrounds point
  /-- A group is as small as its parts allow. -/
  hull : node.placement.circuit.IsGroup → node.box.IsHull (node.children.map box)

theorem IsTiled.nests {node : Layout Rat} (tiled : node.IsTiled) : node.Nests where
  parts _ := tiled.child_within
  wires wire isWire _ isEnd := (Wire.box_contains isEnd).mono (tiled.tiling.wired wire isWire)
  disjoint := (List.pairwise_map.mp tiled.tiling.beside).imp fun beside _ surrounds =>
    beside.not_surrounds surrounds.contains
  hull isGroup := (tiled.touched isGroup).isHull tiled.tiling.nested

end Layout

/-- In the layout of a document the parts of every node are inside of it, with its
wires, and do not overlap, groups leave no room around their parts, no two
elements overlap, and the drawing is as large as the box of the document. -/
theorem boxes_nest_and_tile (symbols : SymbolLibrary Rat) (centred : symbols.IsCentred)
    (settings : LayoutSettings Rat) (nonnegative : settings.IsNonnegative) (text : String)
    (circuit : Circuit) (parsed : Reading.parse text = .ok circuit)
    (known : ∀ element ∈ circuit.elements, (symbols element.kind).isSome) :
    ∃ layout, circuit.layout symbols settings = .ok layout ∧
      (∀ node ∈ layout.walk, node.Nests) ∧
      (∀ path otherPath node other, layout.nodeAt? path = some node →
        layout.nodeAt? otherPath = some other → node.placement.element?.isSome →
          other.placement.element?.isSome → path ≠ otherPath →
            ∀ point, node.box.Surrounds point → ¬other.box.Surrounds point) ∧
      Box.ofLayout layout = layout.box := by
  have wellFormed := Reading.wellFormed_of_parse parsed
  obtain ⟨measure, measured⟩ := wellFormed.exists_measure known
  have tiled := (wellFormed.sized measured).1.tiled nonnegative centred ⟨settings.origin, false⟩
  refine ⟨_, Circuit.layout_of_measure measured, fun node isNode => ?_, ?_,
    Layout.ofLayout_eq_box tiled⟩
  · rw [Layout.walk_eq_nodes] at isNode
    exact (tiled node isNode).nests
  · intro path otherPath node other found otherFound isElement otherElement different point inNode
    exact (Layout.elements_beside tiled found otherFound isElement otherElement
      different).not_surrounds inNode.contains

theorem boxes_nest_and_tile_tight :
    SymbolLibrary.standard.IsCentred ∧ tight.IsNonnegative ∧ ∃ circuit layout,
      Reading.parse "-(R1||(C1+L1))|Z2|(V3||O)-I4" = .ok circuit ∧
      circuit.layout .standard tight = .ok layout ∧ (∀ node ∈ layout.walk, node.Nests) ∧
      Box.ofLayout layout = ⟨-7, 1 / 3, 393, 406 / 3⟩ := by
  have nonnegative : tight.IsNonnegative := ⟨le_rfl, le_rfl, le_rfl, le_rfl⟩
  let document := "-(R1||(C1+L1))|Z2|(V3||O)-I4"
  have readable : (Reading.parse document).toOption.isSome := by decide +kernel
  obtain ⟨circuit, parsed⟩ := Option.isSome_iff_exists.mp readable
  have parsed := eq_ok_of_toOption parsed
  obtain ⟨layout, placed, nests, -, bounds⟩ := boxes_nest_and_tile .standard
    SymbolLibrary.standard_isCentred tight nonnegative document circuit parsed fun _ _ => rfl
  have size : ((Reading.parse document).toOption.bind fun circuit =>
      (circuit.layout .standard tight).toOption).map Layout.box =
        some ⟨-7, 1 / 3, 393, 406 / 3⟩ := by decide +kernel
  rw [parsed] at size
  simp only [Except.toOption, Option.bind_some, placed, Option.map_some, Option.some_inj] at size
  exact ⟨SymbolLibrary.standard_isCentred, nonnegative, circuit, layout, parsed, placed, nests,
    bounds.trans size⟩

end Schematic
