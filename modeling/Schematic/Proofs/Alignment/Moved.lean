import Schematic.Alignment.Issue
import Schematic.Proofs.Layout.Moving

/-!
# Checking a moved layout

The check of a layout compares coordinates along and across the signal of a group,
and only by their differences.  So it finds the same in a layout that is moved: at
the same nodes and about the same parts, only at other places.  The exception is the
search for a lead from a shunt to its rail, which is made at heights in the drawing;
this file leaves open whether a moved shunt still has its lead, and proves the rest.
-/

namespace Schematic

/-! ## Coordinates of moved points -/

namespace Motion

variable (motion : Motion) (group part : Placement Rat)

theorem point_upright (upright : motion.turns = false) (point : Point Rat) :
    motion.point point = point + motion.shift := by
  rw [Motion.point, offset, upright]
  rfl

theorem leftEnd_placement : (motion.placement part).leftEnd = motion.point part.leftEnd :=
  (motion.point_add part.origin part.leftPort).symm

theorem rightEnd_placement : (motion.placement part).rightEnd = motion.point part.rightEnd :=
  (motion.point_add part.origin part.rightPort).symm

theorem bottomRight_placement :
    (motion.placement part).bottomRight = motion.point part.bottomRight :=
  (motion.point_add part.origin ⟨part.width, part.height⟩).symm

/-- Along the signal all points are shifted alike. -/
theorem along_placement (point : Point Rat) :
    (motion.placement group).along (motion.point point) =
      group.along point + (motion.placement group).along motion.shift := by
  cases turns : motion.turns <;> cases rotated : group.rotated <;>
    simp [Placement.along, placement, Motion.point, offset, turns, rotated, Point.transposed]

/-- Across the signal all points are shifted alike. -/
theorem across_placement (point : Point Rat) :
    (motion.placement group).across (motion.point point) =
      group.across point + (motion.placement group).across motion.shift := by
  cases turns : motion.turns <;> cases rotated : group.rotated <;>
    simp [Placement.across, placement, Motion.point, offset, turns, rotated, Point.transposed]

/-- Both coordinates of two points are the same before and after a motion. -/
theorem same_point (first second : Point Rat) :
    (Scalar.same (motion.point first).x (motion.point second).x &&
        Scalar.same (motion.point first).y (motion.point second).y) =
      (Scalar.same first.x second.x && Scalar.same first.y second.y) := by
  cases turns : motion.turns <;>
    simp [Motion.point, offset, turns, Point.transposed, Scalar.same_add_right, Bool.and_comm]

end Motion

namespace Alignment

/-! ## Outlines -/

/-- A finding without its places: its kind and the parts that it names. -/
def Finding.outline {α : Type} (finding : Finding α) : FindingKind × List (String × Nat) :=
  (finding.kind, finding.indices)

/-- The outlines of the findings whose kinds are asked for. -/
def outlines {α : Type} (asked : FindingKind → Bool) (findings : List (Finding α)) :
    List (FindingKind × List (String × Nat)) :=
  (findings.map Finding.outline).filter fun outline => asked outline.1

section

variable {α β : Type} (asked : FindingKind → Bool)

@[simp]
theorem outlines_append (first second : List (Finding α)) :
    outlines asked (first ++ second) = outlines asked first ++ outlines asked second := by
  simp [outlines]

variable {asked}

/-- Findings of one outline are made under equal conditions. -/
theorem outlines_unless {first second : Bool} {found : Finding α} {moved : Finding β}
    (sameOutline : found.outline = moved.outline) (sameTest : first = second) :
    outlines asked (if first then [] else [found]) =
      outlines asked (if second then [] else [moved]) := by
  subst sameTest
  cases first <;> simp [outlines, sameOutline]

theorem outlines_flatMap {γ δ : Type} {items : List γ} {find : γ → List (Finding α)}
    {findMoved : δ → List (Finding β)} (move : γ → δ)
    (each : ∀ item ∈ items, outlines asked (findMoved (move item)) = outlines asked (find item)) :
    outlines asked ((items.map move).flatMap findMoved) =
      outlines asked (items.flatMap find) := by
  induction items with
  | nil => rfl
  | cons item rest ih =>
      rw [List.forall_mem_cons] at each
      simp only [List.map_cons, List.flatMap_cons, outlines_append, each.1, ih each.2]

end

variable (motion : Motion) {asked : FindingKind → Bool} (group : Placement Rat)

/-! ## Series groups -/

theorem checkNeighbours_moved (index : Nat) (left right : Placement Rat) :
    outlines asked (checkNeighbours (motion.placement group) index (motion.placement left)
        (motion.placement right)) =
      outlines asked (checkNeighbours group index left right) := by
  have start : (motion.placement right).origin = motion.point right.origin := rfl
  rw [checkNeighbours, checkNeighbours, outlines_append, outlines_append]
  simp only [motion.leftEnd_placement, motion.rightEnd_placement, motion.bottomRight_placement,
    start, motion.along_placement, motion.across_placement, Scalar.same_add_right]
  congr 1
  · exact outlines_unless rfl rfl
  · exact outlines_unless rfl rfl

theorem checkSeries_moved (position : Nat) (members : List (Placement Rat)) :
    outlines asked (checkSeries (motion.placement group) position
        (members.map motion.placement)) =
      outlines asked (checkSeries group position members) := by
  induction members generalizing position with
  | nil => rfl
  | cons left rest ih =>
      cases rest with
      | nil => rfl
      | cons right others =>
          have later := ih (position + 1)
          rw [List.map_cons] at later
          rw [List.map_cons, List.map_cons, checkSeries, checkSeries, outlines_append,
            outlines_append, checkNeighbours_moved, later]

/-! ## Parallel groups -/

/-- Where a bus of a moved group is. -/
def movedBus (bus : Option Rat) : Option Rat :=
  bus.map (· + (motion.placement group).along motion.shift)

theorem leftBus_placement :
    (motion.placement group).leftBus = movedBus motion group group.leftBus :=
  rfl

theorem rightBus_placement :
    (motion.placement group).rightBus = movedBus motion group group.rightBus :=
  rfl

theorem onBus_moved (port : Point Rat) (bus : Option Rat) :
    onBus (motion.placement group) (motion.point port) (movedBus motion group bus) =
      onBus group port bus := by
  cases bus with
  | none => rfl
  | some bus =>
      simp only [movedBus, Option.map_some, onBus, motion.along_placement, Scalar.same_add_right]

theorem isStub_moved (port start finish : Point Rat) (bus : Rat) :
    isStub (motion.placement group) (motion.point port)
        (bus + (motion.placement group).along motion.shift) (motion.point start)
        (motion.point finish) =
      isStub group port bus start finish := by
  simp only [isStub, motion.same_point, motion.along_placement, motion.across_placement,
    Scalar.same_add_right]

theorem reachesBus_moved (port : Point Rat) (bus : Option Rat) :
    reachesBus (motion.placement group) (motion.point port) (movedBus motion group bus) =
      reachesBus group port bus := by
  cases bus with
  | none => rfl
  | some bus =>
      have wires : (motion.placement group).wires = group.wires.map motion.wire := rfl
      simp only [movedBus, Option.map_some, reachesBus, motion.along_placement,
        Scalar.same_add_right, wires, List.any_map, Function.comp_def, Motion.wire, isStub_moved]

theorem checkBranches_moved (position : Nat) (branches : List (Placement Rat)) :
    outlines asked (checkBranches (motion.placement group) position
        (branches.map motion.placement)) =
      outlines asked (checkBranches group position branches) := by
  induction branches generalizing position with
  | nil => rfl
  | cons branch rest ih =>
      have ends : ∀ side port bus,
          outlines asked (checkBranchEnd (motion.placement group) side position
              (motion.point port) (movedBus motion group bus)) =
            outlines asked (checkBranchEnd group side position port bus) := by
        intro side port bus
        refine outlines_unless ?_ (reachesBus_moved motion group port bus)
        cases side <;> rfl
      simp only [List.map_cons, checkBranches, outlines_append, ih, leftBus_placement,
        rightBus_placement, motion.leftEnd_placement, motion.rightEnd_placement, ends]

theorem checkParallel_moved (branches : List (Placement Rat)) :
    outlines asked (checkParallel (motion.placement group) (branches.map motion.placement)) =
      outlines asked (checkParallel group branches) := by
  have taps : ∀ side port bus,
      outlines asked (checkTap (motion.placement group) side (motion.point port)
          (movedBus motion group bus)) =
        outlines asked (checkTap group side port bus) :=
    fun side port bus => outlines_unless rfl (onBus_moved motion group port bus)
  simp only [checkParallel, outlines_append, checkBranches_moved, leftBus_placement,
    rightBus_placement, motion.leftEnd_placement, motion.rightEnd_placement, taps]

/-! ## Wires -/

theorem length_wire (wire : Wire Rat) : (motion.wire wire).length = wire.length := by
  cases turns : motion.turns with
  | false => simp [Wire.length, Motion.wire, Motion.point, Motion.offset, turns]
  | true =>
      simp only [Wire.length, Motion.wire, Motion.point, Motion.offset, turns, if_true,
        Point.add_x, Point.add_y, Point.transposed, add_sub_add_right_eq_sub]
      exact add_comm _ _

/-- A motion takes straight wires to straight ones. -/
theorem straight_wire (wire : Wire Rat) :
    ((motion.wire wire).isHorizontal || (motion.wire wire).isVertical) =
      (wire.isHorizontal || wire.isVertical) := by
  cases turns : motion.turns <;>
    simp [Wire.isHorizontal, Wire.isVertical, Motion.wire, Motion.point, Motion.offset, turns,
      Point.transposed, Scalar.beq_add_right, Bool.or_comm]

theorem checkWire_moved (wire : Wire Rat) :
    outlines asked (checkWire (motion.wire wire)) = outlines asked (checkWire wire) := by
  rw [checkWire, checkWire, length_wire, straight_wire]
  split
  · rfl
  · exact outlines_unless rfl rfl

/-! ## Twoports -/

/-- Whether a lead from each shunt to the rail is found is the same before and after a
motion, which does not turn a twoport. -/
def KeepsLeads (asked : FindingKind → Bool) (network : Placement Rat)
    (links : List (LinkKind × Placement Rat)) : Prop :=
  motion.turns = false ∧ (asked .shuntOffRail = true → ∀ target, (.shunt, target) ∈ links →
    reachesRail (motion.placement network) (motion.placement target).rightEnd =
      reachesRail network target.rightEnd)

/-- A series link is on the signal line if both its ports are. -/
theorem checkSeriesLink_eq (signal : Rat) (index : Nat) (target : Placement Rat) :
    checkSeriesLink signal index target =
      if Scalar.same target.leftEnd.y signal && Scalar.same target.rightEnd.y signal then []
      else [.seriesOffSignal index (if Scalar.same target.leftEnd.y signal then target.rightEnd.y
        else target.leftEnd.y) signal] := by
  cases left : Scalar.same target.leftEnd.y signal <;>
    cases right : Scalar.same target.rightEnd.y signal <;>
    simp [checkSeriesLink, left, right]

variable {motion} {network : Placement Rat}

theorem checkSeriesLink_moved (upright : motion.turns = false) (index : Nat) (signal : Rat)
    (target : Placement Rat) :
    outlines asked (checkSeriesLink (signal + motion.shift.y) index (motion.placement target)) =
      outlines asked (checkSeriesLink signal index target) := by
  rw [checkSeriesLink_eq, checkSeriesLink_eq]
  refine outlines_unless rfl ?_
  simp only [motion.leftEnd_placement, motion.rightEnd_placement, motion.point_upright upright,
    Point.add_y, Scalar.same_add_right]

theorem checkShuntLink_moved {target : Placement Rat} (index : Nat)
    (keeps : asked .shuntOffRail = true →
      reachesRail (motion.placement network) (motion.placement target).rightEnd =
        reachesRail network target.rightEnd) :
    outlines asked (checkShuntLink (motion.placement network) index (motion.placement target)) =
      outlines asked (checkShuntLink network index target) := by
  unfold checkShuntLink
  cases isAsked : asked .shuntOffRail with
  | true => exact outlines_unless rfl (keeps isAsked)
  | false =>
      have unasked : ∀ (test : Bool) (port : Point Rat) (rail : Option Rat),
          outlines asked (if test then [] else [.shuntOffRail index port rail]) = [] := by
        intro test port rail
        cases test <;> simp [outlines, Finding.outline, Finding.kind, isAsked]
      rw [unasked, unasked]

theorem checkLinks_moved {links : List (LinkKind × Placement Rat)}
    (keeps : KeepsLeads motion asked network links) (position : Nat) :
    outlines asked (checkLinks (motion.placement network) position
        (links.map fun link => (link.1, motion.placement link.2))) =
      outlines asked (checkLinks network position links) := by
  obtain ⟨upright, leads⟩ := keeps
  induction links generalizing position with
  | nil => rfl
  | cons link rest ih =>
      have later := ih (position + 1) fun isAsked target isLink =>
        leads isAsked target (List.mem_cons_of_mem link isLink)
      obtain ⟨kind, target⟩ := link
      cases kind with
      | series =>
          rw [List.map_cons, checkLinks, checkLinks, outlines_append, outlines_append, later,
            motion.leftEnd_placement, motion.point_upright upright, Point.add_y,
            checkSeriesLink_moved upright]
      | shunt =>
          have lead := fun isAsked => leads isAsked target List.mem_cons_self
          rw [List.map_cons, checkLinks, checkLinks, outlines_append, outlines_append, later,
            checkShuntLink_moved position lead]

/-! ## All nodes -/

/-- What holds at a node for each of its shunts to keep its lead. -/
def KeepsLeadsAt (motion : Motion) (asked : FindingKind → Bool) (node : Layout Rat) : Prop :=
  ∀ links, node.placement.circuit = .twoport links →
    KeepsLeads motion asked node.placement
      ((links.map Link.kind).zip (node.children.map Layout.placement))

theorem checkParts_moved {node : Placement Rat} {parts : List (Placement Rat)}
    (keeps : ∀ links, node.circuit = .twoport links →
      KeepsLeads motion asked node ((links.map Link.kind).zip parts)) :
    outlines asked (checkParts (motion.placement node) (parts.map motion.placement)) =
      outlines asked (checkParts node parts) := by
  have same : (motion.placement node).circuit = node.circuit := rfl
  unfold checkParts
  rw [same]
  cases circuit : node.circuit with
  | series members => exact checkSeries_moved motion node 0 parts
  | parallel branches => exact checkParallel_moved motion node parts
  | twoport links =>
      dsimp only
      rw [List.zip_map_right]
      exact checkLinks_moved (keeps links circuit) 0
  | element | link => rfl

theorem checkNode_moved {node : Layout Rat} (keeps : KeepsLeadsAt motion asked node) :
    outlines asked (checkNode (motion.placement node.placement)
        ((node.children.map Layout.placement).map motion.placement)) =
      outlines asked (checkNode node.placement (node.children.map Layout.placement)) := by
  have wires : (motion.placement node.placement).wires = node.placement.wires.map motion.wire :=
    rfl
  rw [checkNode, checkNode, outlines_append, outlines_append, checkParts_moved keeps, wires,
    outlines_flatMap motion.wire fun wire _ => checkWire_moved motion wire]

/-! ## Issues -/

/-- An issue without its message, in which the places are told. -/
def Issue.bare (issue : Issue) : Issue :=
  { issue with message := "" }

/-- The issue that tells about a finding of the given outline, without its message. -/
def Issue.ofOutline (circuit : Circuit) (outline : FindingKind × List (String × Nat)) : Issue where
  severity := outline.1.severity
  code := outline.1.code
  message := ""
  circuit := some circuit.text
  details := outline.2.map fun (name, index) => (name, .whole index)

/-- The issues of a layout whose codes are asked for, without their messages. -/
def bareIssues (asked : String → Bool) (layout : Layout Rat) : List Issue :=
  ((issues layout).map Issue.bare).filter fun issue => asked issue.code

theorem bareIssues_eq (asked : String → Bool) (layout : Layout Rat) :
    bareIssues asked layout = layout.nodes.flatMap fun node =>
      (outlines (fun kind => asked kind.code)
        (checkNode node.placement (node.children.map Layout.placement))).map
          (Issue.ofOutline node.placement.circuit) := by
  have bare : ∀ circuit (finding : Finding Rat),
      (Issue.ofFinding (.mk circuit finding)).bare = .ofOutline circuit finding.outline :=
    fun _ _ => rfl
  rw [bareIssues, issues, check, Layout.walk_eq_nodes, List.map_flatMap, List.map_flatMap,
    List.filter_flatMap]
  congr 1
  funext node
  simp only [outlines, List.map_map, Function.comp_def, bare, List.filter_map]
  rfl

/-- The issues of a moved layout. -/
theorem bareIssues_moved {asked : String → Bool} {layout : Layout Rat}
    (keeps : ∀ node ∈ layout.nodes,
      KeepsLeadsAt motion (fun kind => asked kind.code) node) :
    bareIssues asked (layout.map motion.placement) = bareIssues asked layout := by
  have each : ∀ node ∈ layout.nodes, _ := fun node isNode => checkNode_moved (keeps node isNode)
  rw [bareIssues_eq, bareIssues_eq, Layout.nodes_map, List.flatMap_map]
  refine List.flatMap_congr fun node isNode => ?_
  have parts : (node.children.map (Layout.map motion.placement)).map Layout.placement =
      (node.children.map Layout.placement).map motion.placement := by simp
  rw [Layout.placement_map, Layout.children_map, parts, each node isNode]
  rfl

end Alignment

end Schematic
