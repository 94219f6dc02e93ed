import Schematic.Layout.Place
import Schematic.Proofs.Layout.Walk
import Schematic.Proofs.Number.Scale

/-!
# Layouts of related numbers

Two layouts are related if they differ in their numbers only, and if the numbers
at the same places are related.  This file defines the relations of all parts of
a layout, and proves them for points and wires in a frame whose numbers hold the
exact ones.
-/

namespace Schematic

open Number (Scale)

section

variable {α β : Type} (related : α → β → Prop)

/-- Both coordinates are related. -/
structure Point.Rel (first : Point α) (second : Point β) : Prop where
  x : related first.x second.x
  y : related first.y second.y

/-- Both ends are related. -/
structure Wire.Rel (first : Wire α) (second : Wire β) : Prop where
  start : first.start.Rel related second.start
  finish : first.finish.Rel related second.finish

/-- The origins are related, and both frames are rotated or none of them is. -/
structure Frame.Rel (first : Frame α) (second : Frame β) : Prop where
  origin : first.origin.Rel related second.origin
  rotated : first.rotated = second.rotated

/-- The extents of one circuit, with related sizes and ports. -/
structure Extent.Rel (first : Extent α) (second : Extent β) : Prop where
  circuit : first.circuit = second.circuit
  width : related first.width second.width
  height : related first.height second.height
  leftPort : first.leftPort.Rel related second.leftPort
  rightPort : first.rightPort.Rel related second.rightPort

/-- Placements of one circuit, which are related in all numbers. -/
structure Placement.Rel (first : Placement α) (second : Placement β) : Prop where
  circuit : first.circuit = second.circuit
  origin : first.origin.Rel related second.origin
  width : related first.width second.width
  height : related first.height second.height
  leftPort : first.leftPort.Rel related second.leftPort
  rightPort : first.rightPort.Rel related second.rightPort
  rotated : first.rotated = second.rotated
  wires : List.Forall₂ (Wire.Rel related) first.wires second.wires
  leftBus : Option.Rel related first.leftBus second.leftBus
  rightBus : Option.Rel related first.rightBus second.rightBus
  rail : Option.Rel related first.rail second.rail

/-- Layouts whose nodes are related one by one. -/
inductive Layout.Rel : Layout α → Layout β → Prop where
  | node {first : Placement α} {second : Placement β} {firstParts : List (Layout α)}
      {secondParts : List (Layout β)} :
      first.Rel related second → List.Forall₂ Rel firstParts secondParts →
      Rel (.node first firstParts) (.node second secondParts)

/-- Settings that make the same choices for related distances. -/
structure LayoutSettings.Rel (first : LayoutSettings α) (second : LayoutSettings β) : Prop where
  parallelSpacing : related first.parallelSpacing second.parallelSpacing
  shuntStub : related first.shuntStub second.shuntStub
  shuntLead : related first.shuntLead second.shuntLead
  railClearance : related first.railClearance second.railClearance
  originX : related first.originX second.originX
  originY : related first.originY second.originY
  branchAlignment : first.branchAlignment = second.branchAlignment

end

section

variable {α β : Type} {related other : α → β → Prop}
  (weaker : ∀ first second, related first second → other first second)

include weaker

theorem Point.Rel.mono {first : Point α} {second : Point β} (points : first.Rel related second) :
    first.Rel other second :=
  ⟨weaker _ _ points.x, weaker _ _ points.y⟩

theorem Wire.Rel.mono {first : Wire α} {second : Wire β} (wires : first.Rel related second) :
    first.Rel other second :=
  ⟨wires.start.mono weaker, wires.finish.mono weaker⟩

theorem Extent.Rel.mono {first : Extent α} {second : Extent β}
    (extents : first.Rel related second) : first.Rel other second where
  circuit := extents.circuit
  width := weaker _ _ extents.width
  height := weaker _ _ extents.height
  leftPort := extents.leftPort.mono weaker
  rightPort := extents.rightPort.mono weaker

theorem optionRel_mono {first : Option α} {second : Option β}
    (options : Option.Rel related first second) : Option.Rel other first second := by
  cases options with
  | none => exact .none
  | some values => exact .some (weaker _ _ values)

theorem Placement.Rel.mono {first : Placement α} {second : Placement β}
    (placements : first.Rel related second) : first.Rel other second where
  circuit := placements.circuit
  origin := placements.origin.mono weaker
  width := weaker _ _ placements.width
  height := weaker _ _ placements.height
  leftPort := placements.leftPort.mono weaker
  rightPort := placements.rightPort.mono weaker
  rotated := placements.rotated
  wires := placements.wires.imp fun _ _ wires => wires.mono weaker
  leftBus := optionRel_mono weaker placements.leftBus
  rightBus := optionRel_mono weaker placements.rightBus
  rail := optionRel_mono weaker placements.rail

theorem Layout.Rel.mono {first : Layout α} {second : Layout β}
    (layouts : first.Rel related second) : first.Rel other second := by
  induction first using Layout.induct generalizing second with
  | node placement children ih =>
      cases layouts with
      | node placements parts =>
          refine .node (placements.mono weaker) ?_
          induction parts with
          | nil => exact .nil
          | cons child _ rest =>
              obtain ⟨ofFirst, ofOthers⟩ := List.forall_mem_cons.mp ih
              exact .cons (ofFirst child) (rest ofOthers)

theorem LayoutSettings.Rel.mono {first : LayoutSettings α} {second : LayoutSettings β}
    (settled : first.Rel related second) : first.Rel other second where
  parallelSpacing := weaker _ _ settled.parallelSpacing
  shuntStub := weaker _ _ settled.shuntStub
  shuntLead := weaker _ _ settled.shuntLead
  railClearance := weaker _ _ settled.railClearance
  originX := weaker _ _ settled.originX
  originY := weaker _ _ settled.originY
  branchAlignment := settled.branchAlignment

end

theorem exists_related {α β : Type} {related : α → β → Prop} {firsts : List α} {seconds : List β}
    (members : List.Forall₂ related firsts seconds) {second : β} (isMember : second ∈ seconds) :
    ∃ first, related first second := by
  induction members with
  | nil => cases isMember
  | cons holds _ ih =>
      rcases List.mem_cons.mp isMember with rfl | later
      · exact ⟨_, holds⟩
      · exact ih later

/-- Every node of a layout is related to a node of the other one. -/
theorem Layout.Rel.exists_node {α β : Type} {related : α → β → Prop} {first node : Layout α}
    {second : Layout β} (layouts : first.Rel related second) (isNode : node ∈ first.nodes) :
    ∃ placement, node.placement.Rel related placement := by
  induction first using Layout.induct generalizing second with
  | node placement children ih =>
      cases layouts with
      | node placements parts =>
          rcases Layout.mem_nodes.mp isNode with rfl | ⟨child, isChild, inChild⟩
          · exact ⟨_, placements⟩
          · have flipped : List.Forall₂ (flip (Layout.Rel related)) _ _ := parts.flip
            obtain ⟨other, childRelated⟩ := exists_related flipped isChild
            exact ih child isChild childRelated inChild

/-! ## Points and wires of a frame -/

section

variable {scale : Scale} {start reach : Nat} {computed : Frame Float} {exact : Frame Rat}
  (frames : computed.Rel (scale.Holds start) exact) {corner : Point Float} {exactCorner : Point Rat}

theorem Frame.Rel.offset {α β : Type} {related other : α → β → Prop} {first : Frame α}
    {second : Frame β} {offset : Point α} {exactOffset : Point β}
    (frames : first.Rel related second) (offsets : offset.Rel other exactOffset) :
    (first.offset offset).Rel other (second.offset exactOffset) := by
  unfold Frame.offset
  rw [frames.rotated]
  split
  · exact ⟨offsets.y, offsets.x⟩
  · exact offsets

include frames

theorem Frame.Rel.point (corners : corner.Rel (scale.Holds reach) exactCorner)
    (room : start + reach ≤ scale.room) :
    (computed.point corner).Rel (scale.Holds (start + reach)) (exact.point exactCorner) := by
  have offsets := frames.offset corners
  exact ⟨frames.origin.x.add offsets.x room, frames.origin.y.add offsets.y room⟩

/-- Two points are the same in both arithmetics or in none, so there is a wire in
both of them or in none. -/
theorem Frame.Rel.connect {finish : Point Float} {exactFinish : Point Rat}
    (starts : corner.Rel (scale.Holds reach) exactCorner)
    (finishes : finish.Rel (scale.Holds reach) exactFinish)
    (room : start + reach ≤ scale.room) :
    List.Forall₂ (Wire.Rel (scale.Holds (start + reach))) (computed.connect corner finish)
      (exact.connect exactCorner exactFinish) := by
  have same : corner.same finish = exactCorner.same exactFinish := by
    rw [Point.same, Point.same, starts.x.beq_eq finishes.x, starts.y.beq_eq finishes.y]
  unfold Frame.connect
  rw [same]
  split
  · exact .nil
  · exact .cons ⟨frames.point starts room, frames.point finishes room⟩ .nil

theorem Frame.Rel.alongSignal (corners : corner.Rel (scale.Holds reach) exactCorner)
    (room : start + reach ≤ scale.room) :
    scale.Holds (start + reach) (alongSignal computed corner) (alongSignal exact exactCorner) := by
  have inDrawing := frames.point corners room
  unfold Schematic.alongSignal
  simp only [frames.rotated]
  split
  · exact inDrawing.y
  · exact inDrawing.x

end

end Schematic
