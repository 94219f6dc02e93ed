import Schematic.Alignment.Issue
import Schematic.Proofs.Alignment.Displaced

/-!
# Displaced parts are blamed

The box of one part of a laid out document is moved, and nothing else.  The circuit that
the part belongs to then has a finding which names the part, whatever the circuit is and
wherever it is in the document.
-/

namespace Schematic

namespace Alignment

/-! ## Parts of placed circuits -/

/-- An offset by which a part of a group is moved out of place: any offset for a member of
a series group, one along the signal for a branch of a parallel group, and one up or down
for the target of a series link. -/
def IsNoticeable (group : Placement Rat) (index : Nat) (offset : Point Rat) : Prop :=
  match group.circuit with
  | .series _ => Scalar.tolerance < |offset.x| ∨ Scalar.tolerance < |offset.y|
  | .parallel _ => group.across offset = 0 ∧ Scalar.tolerance < |group.along offset|
  | .twoport links =>
      links[index]?.map Link.kind = some .series ∧ Scalar.tolerance < |offset.y|
  | _ => False

section

variable {settings : LayoutSettings Rat} {measure : Measure Rat} {frame : Frame Rat}
  {index : Nat} {part : Placement Rat} {offset : Point Rat}

/-- An offset along the signal moves a local point along the first axis. -/
theorem point_add_along {group : Placement Rat} (sameTurn : group.rotated = frame.rotated)
    (across : group.across offset = 0) (point : Point Rat) :
    frame.point point + offset = frame.point ⟨point.x + group.along offset, point.y⟩ := by
  cases rotated : frame.rotated <;>
    simp only [Placement.across, Placement.along, sameTurn, rotated, Bool.false_eq_true, if_false,
      if_true] at across ⊢ <;>
    apply Point.eq_of_coordinates <;>
    simp [Frame.point, Frame.offset, rotated, Point.transposed, across, add_assoc]

theorem length_children (isGroup : measure.circuit.IsGroup) :
    (measure.place settings frame).children.length = measure.parts.length := by
  have children : (measure.place settings frame).children =
      measure.parts.mapIdx fun index part => part.place settings (frame.shifted
        (partCorner settings measure.extent measure.extents index part.extent)) :=
    List.ext_getElem? fun index => by rw [place_group_child isGroup, List.getElem?_mapIdx]
  rw [children, List.length_mapIdx]

/-- The parts of a placed circuit. -/
abbrev placedParts (settings : LayoutSettings Rat) (measure : Measure Rat) (frame : Frame Rat) :
    List (Placement Rat) :=
  (measure.place settings frame).children.map Layout.placement

theorem exists_blame_of_parallel {branches : List Circuit}
    (isParallel : measure.extent.circuit = .parallel branches)
    (room : HasRoom settings measure.extent measure.extents)
    (found : (placedParts settings measure frame)[index]? = some part)
    (across : (measure.place settings frame).placement.across offset = 0)
    (noticeable : Scalar.tolerance < |(measure.place settings frame).placement.along offset|) :
    ∃ finding ∈ checkParallel (measure.place settings frame).placement
      ((placedParts settings measure frame).set index (part.displaced offset)),
      finding.Blames index := by
  have inRange := (List.getElem?_eq_some_iff.mp found).1
  have foundMoved := @List.getElem?_set_self _ _ _ (part.displaced offset) inRange
  obtain ⟨inner, partFrame, foundInner, partPlace, rfl⟩ := Measure.childPlacement found
  have foundExtent := Measure.extents_getElem? foundInner
  rw [partFrames_parallel isParallel, foundExtent, Option.map_some, Option.some_inj] at partPlace
  subst partPlace
  rw [Measure.place_placement] at across noticeable ⊢
  have straight := (room.roomy inner.extent (List.mem_of_getElem? foundExtent)).isStraight
  have off := room.misses_bus (mem_branchSlots.mpr ⟨index, inner.extent, foundExtent, rfl⟩) frame
    isParallel noticeable
  rw [← corner_add_leftPort straight, ← corner_add_rightPort straight] at off
  dsimp only at off
  rw [← point_add_along placement_rotated across, ← point_add_along placement_rotated across,
    ← Frame.point_shifted, ← Frame.point_shifted] at off
  obtain ⟨finding, isFinding, blames⟩ := exists_blame_of_branch foundMoved (by
    rw [Placement.leftEnd_displaced, Placement.rightEnd_displaced, placement_leftEnd,
      placement_rightEnd]
    exact off) 0
  refine ⟨finding, List.mem_append_right _ isFinding, ?_⟩
  rwa [Nat.zero_add] at blames

/-- A noticeable part of a group is blamed at the group. -/
theorem exists_blame_of_sized (sized : measure.Sized SymbolLibrary.standard settings)
    (nonnegative : settings.IsNonnegative)
    (found : (placedParts settings measure frame)[index]? = some part)
    (noticeable : IsNoticeable (measure.place settings frame).placement index offset) :
    ∃ finding ∈ checkParts (measure.place settings frame).placement
      ((placedParts settings measure frame).set index (part.displaced offset)),
      finding.Blames index := by
  have circuit : (measure.place settings frame).placement.circuit = measure.extent.circuit := by
    rw [Measure.place_placement, placement_circuit]
  rw [checkParts]
  rw [IsNoticeable] at noticeable
  rw [circuit] at noticeable ⊢
  cases sized with
  | element known => exact noticeable.elim
  | @series parts extent two partsSized measured =>
      have isSeries := seriesExtent_circuit measured
      have straight : ∀ part ∈ parts, part.extent.IsStraight := fun part isPart =>
        ((partsSized part isPart).isRoomy nonnegative).isStraight
      rw [Measure.extent, isSeries] at noticeable ⊢
      refine exists_blame_of_series found ?_ (fun index left right foundLeft foundRight =>
        @seriesNeighbours_meet settings frame (.node extent parts) _ isSeries straight index left
          right foundLeft foundRight) noticeable
      rwa [List.length_map, length_children (isGroup_series measured)]
  | @parallel parts extent two partsSized measured =>
      have isParallel := parallelExtent_circuit measured
      rw [Measure.extent, isParallel] at noticeable ⊢
      have roomy : ∀ part ∈ parts.map Measure.extent, part.IsRoomy :=
        List.forall_mem_map.mpr fun part isPart => (partsSized part isPart).isRoomy nonnegative
      have fits := (parallelExtent_isRoomy nonnegative measured roomy).2.1
      exact exists_blame_of_parallel isParallel ⟨nonnegative, roomy, fits⟩ found noticeable.1
        noticeable.2

theorem exists_blame_of_network {links : List (Link Circuit)} {parts : List (Measure Rat)}
    (straight : ∀ part ∈ parts, part.extent.IsStraight) (upright : frame.rotated = false)
    (found : (placedParts settings (.network settings links parts) frame)[index]? = some part)
    (noticeable : IsNoticeable ((Measure.network settings links parts).place settings
      frame).placement index offset) :
    ∃ finding ∈ checkParts ((Measure.network settings links parts).place settings frame).placement
      ((placedParts settings (.network settings links parts) frame).set index
        (part.displaced offset)), finding.Blames index := by
  have circuit : ((Measure.network settings links parts).place settings frame).placement.circuit =
      .twoport links := by
    rw [Measure.place_placement, placement_circuit]
    rfl
  rw [checkParts]
  rw [IsNoticeable] at noticeable
  rw [circuit] at noticeable ⊢
  obtain ⟨isSeries, noticeable⟩ := noticeable
  rw [← List.getElem?_map] at isSeries
  have inRange := (List.getElem?_eq_some_iff.mp found).1
  have foundMoved := @List.getElem?_set_self _ _ _ (part.displaced offset) inRange
  have member : (.series, part) ∈ (links.map Link.kind).zip
      (placedParts settings (.network settings links parts) frame) :=
    List.mem_iff_getElem?.mpr ⟨index, List.getElem?_zip_eq_some.mpr ⟨isSeries, found⟩⟩
  obtain ⟨finding, isFinding, blames⟩ :=
    exists_blame_of_link (seriesTarget_level straight upright member).1 noticeable index
  refine ⟨finding, mem_checkLinks (List.getElem?_zip_eq_some.mpr ⟨isSeries, foundMoved⟩) 0 ?_,
    blames⟩
  rwa [Nat.zero_add]

end

/-! ## Layouts of documents -/

/-- The nodes of a placed part are placed parts. -/
theorem exists_sized_of_nodeAt? {symbols : SymbolLibrary Rat} {settings : LayoutSettings Rat}
    {measure : Measure Rat} {frame : Frame Rat} (sized : measure.Sized symbols settings)
    {path : List Nat} {node : Layout Rat}
    (found : (measure.place settings frame).nodeAt? path = some node) :
    ∃ (inner : Measure Rat) (innerFrame : Frame Rat), inner.Sized symbols settings ∧
      inner.place settings innerFrame = node := by
  induction path generalizing measure frame with
  | nil => exact ⟨measure, frame, sized, Option.some_inj.mp found⟩
  | cons index path ih =>
      obtain ⟨child, isChild, found⟩ := Option.bind_eq_some_iff.mp found
      obtain ⟨part, isPart, partFrame, rfl⟩ :=
        Measure.exists_of_mem_children (List.mem_of_getElem? isChild)
      have partSized : part.Sized symbols settings := by
        cases sized with
        | element known => cases isPart
        | series two parts measured => exact parts part isPart
        | parallel two parts measured => exact parts part isPart
      exact ih partSized found

theorem exists_blame_of_root {settings : LayoutSettings Rat} {measure : Measure Rat}
    {frame : Frame Rat} (root : measure.SizedRoot SymbolLibrary.standard settings)
    (upright : frame.rotated = false) (nonnegative : settings.IsNonnegative) {path : List Nat}
    {group : Layout Rat} (foundGroup : (measure.place settings frame).nodeAt? path = some group)
    {index : Nat} {part : Placement Rat}
    (foundPart : (group.children.map Layout.placement)[index]? = some part) {offset : Point Rat}
    (noticeable : IsNoticeable group.placement index offset) :
    ∃ finding ∈ checkParts group.placement
      ((group.children.map Layout.placement).set index (part.displaced offset)),
      finding.Blames index := by
  cases root with
  | part sized =>
      obtain ⟨inner, innerFrame, innerSized, rfl⟩ := exists_sized_of_nodeAt? sized foundGroup
      exact exists_blame_of_sized innerSized nonnegative foundPart noticeable
  | @twoport links parts partsSized circuits =>
      cases path with
      | nil =>
          obtain rfl := Option.some_inj.mp foundGroup
          exact exists_blame_of_network (fun part isPart =>
            ((partsSized part isPart).isRoomy nonnegative).isStraight) upright foundPart noticeable
      | cons position path =>
          obtain ⟨child, isChild, foundGroup⟩ := Option.bind_eq_some_iff.mp foundGroup
          obtain ⟨target, isTarget, targetFrame, rfl⟩ :=
            Measure.exists_of_mem_children (List.mem_of_getElem? isChild)
          obtain ⟨inner, innerFrame, innerSized, rfl⟩ :=
            exists_sized_of_nodeAt? (partsSized target isTarget) foundGroup
          exact exists_blame_of_sized innerSized nonnegative foundPart noticeable

/-- The node at a path has an error that names its part at `index`, and the error is among
the issues of the layout. -/
def HasErrorAbout (layout : Layout Rat) (path : List Nat) (group : Circuit) (index : Nat) : Prop :=
  ∃ node, layout.nodeAt? path = some node ∧ node.placement.circuit = group ∧
    ∃ finding ∈ checkNode node.placement (node.children.map Layout.placement),
    ∃ issue ∈ issues layout,
      issue = .ofFinding ⟨group, finding⟩ ∧ issue.severity = .error ∧
      issue.circuit = some group.text ∧ ∃ name, (name, .whole index) ∈ issue.details

theorem hasErrorAbout_of_blames {layout node : Layout Rat} {path : List Nat} {index : Nat}
    (found : layout.nodeAt? path = some node) {finding : Finding Rat}
    (isFinding : finding ∈ checkParts node.placement (node.children.map Layout.placement))
    (blames : finding.Blames index) :
    HasErrorAbout layout path node.placement.circuit index := by
  obtain ⟨isError, name, isNamed⟩ := blames
  have inNode : finding ∈ checkNode node.placement (node.children.map Layout.placement) :=
    List.mem_append_left _ isFinding
  have inLayout : ⟨node.placement.circuit, finding⟩ ∈ check layout := by
    rw [check, Layout.walk_eq_nodes]
    exact List.mem_flatMap.mpr ⟨node, Layout.mem_nodes_of_nodeAt? found,
      List.mem_map.mpr ⟨finding, inNode, rfl⟩⟩
  exact ⟨node, found, rfl, finding, inNode, _, List.mem_map_of_mem inLayout, rfl, isError, rfl,
    name, List.mem_map.mpr ⟨(name, index), isNamed, rfl⟩⟩

/-- In the layout of a document, a part whose box is moved out of place is always found: the
circuit that it belongs to has an error that names the part. -/
theorem displaced_part_is_blamed {text : String} {circuit : Circuit}
    {settings : LayoutSettings Rat} {layout : Layout Rat} (nonnegative : settings.IsNonnegative)
    (parsed : Reading.parse text = .ok circuit)
    (placed : circuit.layout .standard settings = .ok layout) {path : List Nat} {index : Nat}
    {group part : Layout Rat} (foundGroup : layout.nodeAt? path = some group)
    (foundPart : group.children[index]? = some part) {offset : Point Rat}
    (noticeable : IsNoticeable group.placement index offset) :
    ∃ edited,
      layout.edit? { origin := some (part.placement.origin + offset) }
        (Layout.positions (path ++ [index])) = some edited ∧
      HasErrorAbout edited path group.placement.circuit index := by
  obtain ⟨measure, measured, rfl⟩ : ∃ measure,
      circuit.measure .standard settings = .ok measure ∧
        measure.place settings ⟨settings.origin, false⟩ = layout := by
    obtain ⟨measure, measured, placed⟩ := exists_of_bind_eq_ok placed
    exact ⟨measure, measured, Except.ok.inj placed⟩
  obtain ⟨root, -⟩ := (Reading.wellFormed_of_parse parsed).sized measured
  have foundPlacement : (group.children.map Layout.placement)[index]? = some part.placement := by
    rw [List.getElem?_map, foundPart, Option.map_some]
  obtain ⟨finding, isFinding, blames⟩ :=
    exists_blame_of_root root rfl nonnegative foundGroup foundPlacement noticeable
  obtain ⟨edited, isEdited, foundNode⟩ := Layout.exists_displaced foundGroup foundPart offset
  have parts : (group.children.set index (.node (part.placement.displaced offset)
        part.children)).map Layout.placement =
      (group.children.map Layout.placement).set index (part.placement.displaced offset) :=
    List.map_set
  rw [← parts] at isFinding
  have blamed := hasErrorAbout_of_blames foundNode isFinding blames
  exact ⟨edited, isEdited, blamed⟩

/-- Settings that centre branches, with a layout somewhere else. -/
def centring : LayoutSettings Rat :=
  ⟨20, 80, 20, 20, 1 / 3, -7, .center, false⟩

/-- A target that is raised a little, a branch that comes to rest on the first of its buses,
and the last member of a group that is shifted across its line. -/
theorem displaced_part_is_blamed_ladder :
    let members : Circuit := .series [.element ⟨.inductor, some "3"⟩,
      .element ⟨.voltageSource, some "4"⟩]
    let branches : Circuit := .parallel [.element ⟨.capacitor, some "2"⟩, members]
    let ladder : Circuit := .twoport [⟨.series, .element ⟨.resistor, some "1"⟩⟩, ⟨.shunt, branches⟩]
    ∃ layout, Reading.parse "-R1|(C2||(L3+V4))" = .ok ladder ∧
      ladder.layout .standard centring = .ok layout ∧
      (∃ target edited, layout.nodeAt? [0] = some target ∧
        layout.edit? { origin := some (target.placement.origin + ⟨5, -1 / 10 ^ 8⟩) } [0] =
          some edited ∧ HasErrorAbout edited [] ladder 0) ∧
      (∃ branch edited, layout.nodeAt? [1, 0] = some branch ∧
        layout.edit? { origin := some (branch.placement.origin + ⟨0, -50⟩) } [1, 0] =
          some edited ∧ HasErrorAbout edited [1] branches 0) ∧
      ∃ member edited, layout.nodeAt? [1, 1, 1] = some member ∧
        layout.edit? { origin := some (member.placement.origin + ⟨1 / 10 ^ 8, 0⟩) } [1, 1, 1] =
          some edited ∧ HasErrorAbout edited [1, 1] members 1 := by
  intro members branches ladder
  have parsed : Reading.parse "-R1|(C2||(L3+V4))" = .ok ladder := by
    apply eq_ok_of_toOption
    decide +kernel
  have nonnegative : centring.IsNonnegative := by
    constructor <;> decide +kernel
  refine ⟨_, parsed, rfl, ?_, ?_, ?_⟩
  · have noticeable : Scalar.tolerance < |(-1 / 10 ^ 8 : Rat)| := by decide +kernel
    obtain ⟨edited, isEdited, blamed⟩ := @displaced_part_is_blamed _ _ _ _ nonnegative parsed rfl
      [] 0 _ _ rfl rfl ⟨5, -1 / 10 ^ 8⟩ ⟨rfl, noticeable⟩
    exact ⟨_, edited, rfl, isEdited, blamed⟩
  · have noticeable : Scalar.tolerance < |(-50 : Rat)| := by decide +kernel
    obtain ⟨edited, isEdited, blamed⟩ := @displaced_part_is_blamed _ _ _ _ nonnegative parsed rfl
      [1] 0 _ _ rfl rfl ⟨0, -50⟩ ⟨rfl, noticeable⟩
    exact ⟨_, edited, rfl, isEdited, blamed⟩
  · have noticeable : Scalar.tolerance < |(1 / 10 ^ 8 : Rat)| := by decide +kernel
    obtain ⟨edited, isEdited, blamed⟩ := @displaced_part_is_blamed _ _ _ _ nonnegative parsed rfl
      [1, 1] 1 _ _ rfl rfl ⟨1 / 10 ^ 8, 0⟩ (.inl noticeable)
    exact ⟨_, edited, rfl, isEdited, blamed⟩

end Alignment

end Schematic
