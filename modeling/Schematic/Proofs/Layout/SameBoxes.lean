import Schematic.Proofs.Layout.Flattening

/-!
# Parts with the same boxes

The extent, the wires and the frames of the parts of a group or of a twoport are
found from the boxes and the ports of the parts.  This file proves that they do
not depend on the circuits in these boxes.
-/

namespace Schematic

section

variable {settings : LayoutSettings Rat} {frame : Frame Rat}

/-! ## Boxes without circuits -/

/-- Lists of extents that differ in their circuits only. -/
def SameBoxes (parts others : List (Extent Rat)) : Prop :=
  parts.map Extent.nameless = others.map Extent.nameless

/-- What does not look at the circuits is the same for the same boxes. -/
theorem SameBoxes.eq {β : Type} {parts others : List (Extent Rat)}
    (same : SameBoxes parts others) (read : List (Extent Rat) → β)
    (blind : ∀ extents, read (extents.map Extent.nameless) = read extents) :
    read parts = read others := by
  rw [← blind parts, same, blind others]

theorem SameBoxes.map_eq {β : Type} {parts others : List (Extent Rat)}
    (same : SameBoxes parts others) (read : Extent Rat → β)
    (blind : ∀ extent, read extent.nameless = read extent) :
    parts.map read = others.map read :=
  same.eq (List.map read) fun extents => by simp [blind]

theorem seriesFrames_nameless (line x : Rat) (members : List (Extent Rat)) :
    seriesFrames frame line x (members.map Extent.nameless) =
      seriesFrames frame line x members := by
  induction members generalizing x with
  | nil => rfl
  | cons member rest ih => rw [List.map_cons, seriesFrames, ih]; rfl

/-- A slot without the circuit of its branch. -/
def BranchSlot.nameless (slot : BranchSlot Rat) : BranchSlot Rat :=
  ⟨slot.branch.nameless, slot.corner⟩

theorem branchSlots_nameless (width y : Rat) (branches : List (Extent Rat)) :
    branchSlots settings width y (branches.map Extent.nameless) =
      (branchSlots settings width y branches).map BranchSlot.nameless := by
  induction branches generalizing y with
  | nil => rfl
  | cons branch rest ih => rw [List.map_cons, branchSlots, ih]; rfl

/-- A link without the circuit of its target. -/
def namelessLink (link : LinkKind × Extent Rat) : LinkKind × Extent Rat :=
  (link.1, link.2.nameless)

def LinkSlot.nameless (slot : LinkSlot Rat) : LinkSlot Rat :=
  { slot with target := slot.target.nameless }

theorem linkSlots_nameless (x : Rat) (links : List (LinkKind × Extent Rat)) :
    linkSlots settings x (links.map namelessLink) =
      (linkSlots settings x links).map LinkSlot.nameless := by
  induction links generalizing x with
  | nil => rfl
  | cons link rest ih =>
      have sameWidth : slotWidth settings (namelessLink link) = slotWidth settings link := rfl
      simp only [List.map_cons, linkSlots, sameWidth, ih]
      rfl

theorem targetsOf_nameless (kind : LinkKind) (links : List (LinkKind × Extent Rat)) :
    targetsOf kind (links.map namelessLink) = (targetsOf kind links).map Extent.nameless := by
  simp only [targetsOf, List.filter_map, List.map_map]
  rfl

theorem twoportLines_nameless (links : List (LinkKind × Extent Rat)) :
    twoportLines settings (links.map namelessLink) = twoportLines settings links := by
  simp only [twoportLines, targetsOf_nameless, List.map_map]
  cases targetsOf .shunt links with
  | nil => rfl
  | cons first rest => simp only [List.map_cons, List.map_map]; rfl

theorem slotWires_nameless (lines : TwoportLines Rat) (isFirst : Bool)
    (slots : List (LinkSlot Rat)) :
    slotWires frame lines isFirst (slots.map LinkSlot.nameless) =
      slotWires frame lines isFirst slots := by
  induction slots generalizing isFirst with
  | nil => rfl
  | cons slot rest ih =>
      rw [List.map_cons, slotWires, ih, List.isEmpty_map]
      rfl

theorem zip_nameless (kinds : List LinkKind) (parts : List (Extent Rat)) :
    kinds.zip (parts.map Extent.nameless) = (kinds.zip parts).map namelessLink := by
  rw [List.zip_map_right]
  rfl

/-! ## Parts with the same boxes -/

theorem GroupKind.extent_sameBoxes {kind : GroupKind} {circuit other : Circuit}
    {parts others : List (Extent Rat)} {extent : Extent Rat} (same : SameBoxes parts others)
    (measured : kind.extent settings circuit parts = .ok extent) :
    ∃ otherExtent, kind.extent settings other others = .ok otherExtent ∧
      extent.nameless = otherExtent.nameless := by
  have widths := same.map_eq Extent.width fun _ => rfl
  cases kind with
  | series =>
      obtain ⟨ascent, descent, highest, lowest, rfl⟩ := seriesExtent_eq_ok.mp measured
      rw [same.map_eq Extent.ascent fun _ => rfl] at highest
      rw [same.map_eq Extent.descent fun _ => rfl] at lowest
      refine ⟨_, seriesExtent_eq_ok.mpr ⟨ascent, descent, highest, lowest, rfl⟩, ?_⟩
      rw [widths]
      rfl
  | parallel =>
      obtain ⟨width, height, widest, pitches, rfl⟩ := parallelExtent_eq_ok.mp measured
      rw [widths] at widest
      rw [branchPitches, same.map_eq _ fun _ => rfl] at pitches
      exact ⟨_, parallelExtent_eq_ok.mpr ⟨width, height, widest, pitches, rfl⟩, rfl⟩

theorem GroupKind.frames_nameless (kind : GroupKind) (extent : Extent Rat)
    (parts : List (Extent Rat)) :
    kind.frames settings extent.nameless frame (parts.map Extent.nameless) =
      kind.frames settings extent frame parts := by
  cases kind with
  | series => exact seriesFrames_nameless _ _ parts
  | parallel =>
      rw [frames, branchFrames, branchSlots_nameless, List.map_map]
      rfl

theorem parallelWires_nameless (extent : Extent Rat) (slots : List (BranchSlot Rat)) :
    parallelWires frame extent.nameless (slots.map BranchSlot.nameless) =
      parallelWires frame extent slots := by
  simp only [parallelWires, List.flatMap_map, List.map_map]
  rfl

/-- The wires of a group that is placed in `frame`. -/
def GroupKind.wires (settings : LayoutSettings Rat) (extent : Extent Rat) (frame : Frame Rat) :
    GroupKind → List (Extent Rat) → List (Wire Rat)
  | series, _ => []
  | parallel, branches => parallelWires frame extent (branchSlots settings extent.width 0 branches)

theorem GroupKind.placement_wires {kind : GroupKind} {extent : Extent Rat}
    {circuits : List Circuit} (isGroup : extent.circuit = kind.group circuits)
    (parts : List (Extent Rat)) :
    (placement settings extent parts frame).wires = kind.wires settings extent frame parts := by
  cases kind <;> rw [placement, isGroup] <;> rfl

theorem GroupKind.wires_nameless (kind : GroupKind) (extent : Extent Rat)
    (parts : List (Extent Rat)) :
    kind.wires settings extent.nameless frame (parts.map Extent.nameless) =
      kind.wires settings extent frame parts := by
  cases kind with
  | series => rfl
  | parallel =>
      rw [wires, branchSlots_nameless]
      exact parallelWires_nameless extent _

/-- The wires of a twoport that is placed in `frame`. -/
def networkWires (settings : LayoutSettings Rat) (frame : Frame Rat)
    (links : List (LinkKind × Extent Rat)) : List (Wire Rat) :=
  slotWires frame (twoportLines settings links) true (linkSlots settings 0 links)

theorem networkWires_nameless (links : List (LinkKind × Extent Rat)) :
    networkWires settings frame (links.map namelessLink) = networkWires settings frame links := by
  rw [networkWires, twoportLines_nameless, linkSlots_nameless, slotWires_nameless]
  rfl

/-- The frames of the targets of a twoport that is placed in `frame`. -/
def networkFrames (settings : LayoutSettings Rat) (frame : Frame Rat)
    (links : List (LinkKind × Extent Rat)) : List (Frame Rat) :=
  (linkSlots settings 0 links).map (LinkSlot.targetFrame frame (twoportLines settings links))

theorem networkFrames_nameless (links : List (LinkKind × Extent Rat)) :
    networkFrames settings frame (links.map namelessLink) =
      networkFrames settings frame links := by
  rw [networkFrames, twoportLines_nameless, linkSlots_nameless, List.map_map]
  rfl

theorem twoportExtent_nameless (circuit other : Circuit) (links : List (LinkKind × Extent Rat)) :
    (twoportExtent settings circuit (links.map namelessLink)).nameless =
      (twoportExtent settings other links).nameless := by
  simp only [twoportExtent, twoportLines_nameless, List.map_map]
  rfl

end

end Schematic
