import Mathlib.Data.List.MinMax
import Mathlib.Logic.Relation
import Schematic.Proofs.Layout.Centred
import Schematic.Proofs.Layout.Walk

/-!
# Nested groups of one kind

A series group that is a member of a series group can be replaced by its
members, and a parallel group that is a branch of a parallel group by its
branches.  The boxes and the places of a layout are found level by level, so
this file compares the two levels of a nested group with the one level of the
flattened group: the extents are the same, and every part gets the same frame.
-/

namespace Schematic

/-! ## Flattening -/

/-- The two kinds of groups. -/
inductive GroupKind where
  | series
  | parallel
deriving DecidableEq

/-- The group of the given parts. -/
def GroupKind.group : GroupKind → List Circuit → Circuit
  | series, members => .series members
  | parallel, branches => .parallel branches

/-- Somewhere in a circuit, a group that is a part of a group of its own kind is
replaced by its parts.  Only groups of the given kinds are flattened. -/
inductive Circuit.Flattens (kinds : Set GroupKind) : Circuit → Circuit → Prop where
  | nested {kind : GroupKind} (before inner after : List Circuit) : kind ∈ kinds →
      Flattens kinds (kind.group (before ++ kind.group inner :: after))
        (kind.group (before ++ (inner ++ after)))
  | part (kind : GroupKind) (before after : List Circuit) {old new : Circuit} :
      Flattens kinds old new →
      Flattens kinds (kind.group (before ++ old :: after)) (kind.group (before ++ new :: after))
  | target (kind : LinkKind) (before after : List (Link Circuit)) {old new : Circuit} :
      Flattens kinds old new →
      Flattens kinds (.twoport (before ++ ⟨kind, old⟩ :: after))
        (.twoport (before ++ ⟨kind, new⟩ :: after))

/-! ## Extents of groups -/

/-- An extent without its circuit: extents that are equal without their circuits
have the same box and the same ports. -/
def Extent.nameless (extent : Extent Rat) : Extent Rat :=
  { extent with circuit := .series [] }

/-- The extent of a group with parts of the given extents. -/
def GroupKind.extent (settings : LayoutSettings Rat) :
    GroupKind → Circuit → List (Extent Rat) → Except LayoutFault (Extent Rat)
  | series => seriesExtent
  | parallel => parallelExtent settings

section

variable {symbols : SymbolLibrary Rat} {settings : LayoutSettings Rat} {circuit : Circuit}
  {extent : Extent Rat}

theorem maximum_eq_largest (first : Rat) (rest : List Rat) :
    (first :: rest).maximum = Scalar.largest first rest :=
  List.maximum_eq_coe_iff.mpr (Scalar.largest_spec first rest)

/-- A series group is as long as its members together, and reaches as far from
its line as any of them. -/
theorem seriesExtent_eq_ok {members : List (Extent Rat)} :
    seriesExtent circuit members = .ok extent ↔
      ∃ ascent descent : Rat, (members.map Extent.ascent).maximum = ascent ∧
        (members.map Extent.descent).maximum = descent ∧
        extent = ⟨circuit, (members.map Extent.width).sum, ascent + descent, ⟨0, ascent⟩,
          ⟨(members.map Extent.width).sum, ascent⟩⟩ := by
  cases members with
  | nil => simp [seriesExtent]
  | cons first rest =>
      simp [seriesExtent, maximum_eq_largest, eq_comm]

/-- A parallel group is as wide as its widest branch, and its branches have a gap
between them. -/
theorem parallelExtent_eq_ok {branches : List (Extent Rat)} :
    parallelExtent settings circuit branches = .ok extent ↔
      ∃ width height : Rat, (branches.map Extent.width).maximum = width ∧
        (branchPitches settings branches).sum - settings.parallelSpacing = height ∧
        extent = ⟨circuit, width, height, ⟨0, height / 2⟩, ⟨width, height / 2⟩⟩ := by
  cases branches with
  | nil => simp [parallelExtent]
  | cons first rest =>
      have height : ((first :: rest).map Extent.height).sum +
          settings.parallelSpacing * (rest.length : Rat) =
          (branchPitches settings (first :: rest)).sum - settings.parallelSpacing := by
        rw [sum_branchPitches, List.length_cons]
        push_cast
        linarith
      simp only [parallelExtent, Scalar.sum_eq, Scalar.ofNat_eq, Scalar.half_eq, Scalar.zero_eq,
        height]
      simp [maximum_eq_largest, eq_comm]

theorem GroupKind.extent_circuit {kind : GroupKind} {parts : List (Extent Rat)}
    (measured : kind.extent settings circuit parts = .ok extent) : extent.circuit = circuit := by
  cases kind with
  | series => exact seriesExtent_circuit measured
  | parallel => exact parallelExtent_circuit measured

/-- A nested group adds nothing to the box of the group around it. -/
theorem GroupKind.extent_flatten {kind : GroupKind} {inside : Circuit} {nested : Extent Rat}
    {before inner after : List (Extent Rat)} (flat : Circuit)
    (nestedMeasured : kind.extent settings inside inner = .ok nested)
    (measured : kind.extent settings circuit (before ++ nested :: after) = .ok extent) :
    ∃ flatExtent, kind.extent settings flat (before ++ (inner ++ after)) = .ok flatExtent ∧
      extent.nameless = flatExtent.nameless := by
  cases kind with
  | series =>
      obtain ⟨innerAscent, innerDescent, innerHighest, innerLowest, rfl⟩ :=
        seriesExtent_eq_ok.mp nestedMeasured
      obtain ⟨ascent, descent, highest, lowest, rfl⟩ := seriesExtent_eq_ok.mp measured
      have width : ((before ++ (inner ++ after)).map Extent.width).sum =
          ((before.map Extent.width).sum +
            ((inner.map Extent.width).sum + (after.map Extent.width).sum)) := by simp
      refine ⟨_, seriesExtent_eq_ok.mpr ⟨ascent, descent, ?_, ?_, rfl⟩, ?_⟩
      · simpa [List.maximum_append, List.maximum_cons, innerHighest, Extent.ascent] using highest
      · simpa [List.maximum_append, List.maximum_cons, innerLowest, Extent.descent] using lowest
      · simp [Extent.nameless]
  | parallel =>
      obtain ⟨innerWidth, innerHeight, innerWidest, innerPitches, rfl⟩ :=
        parallelExtent_eq_ok.mp nestedMeasured
      obtain ⟨width, height, widest, pitches, rfl⟩ := parallelExtent_eq_ok.mp measured
      refine ⟨_, parallelExtent_eq_ok.mpr ⟨width, height, ?_, ?_, rfl⟩, rfl⟩
      · simpa [List.maximum_append, List.maximum_cons, innerWidest] using widest
      · rw [← pitches, ← innerPitches]
        simp [branchPitches]

end

/-! ## Frames of the parts -/

section

variable {settings : LayoutSettings Rat} {frame : Frame Rat}

theorem seriesFrames_append (line x : Rat) (before after : List (Extent Rat)) :
    seriesFrames frame line x (before ++ after) =
      seriesFrames frame line x before ++
        seriesFrames frame line (x + (before.map Extent.width).sum) after := by
  induction before generalizing x with
  | nil => simp [seriesFrames]
  | cons member rest ih => simp [seriesFrames, ih, add_assoc]

theorem seriesFrames_shifted (corner : Point Rat) (line x : Rat) (members : List (Extent Rat)) :
    seriesFrames (frame.shifted corner) line x members =
      seriesFrames frame (corner.y + line) (corner.x + x) members := by
  induction members generalizing x with
  | nil => rfl
  | cons member rest ih =>
      have moved : corner + ⟨x, line - member.leftPort.y⟩ =
          ⟨corner.x + x, corner.y + line - member.leftPort.y⟩ := by
        rw [add_sub_assoc]
        rfl
      rw [seriesFrames, seriesFrames, ih, frame.point_shifted, moved, add_assoc]
      rfl

/-- The frames of branches that are stacked from the height `y` downwards. -/
def branchFrames (settings : LayoutSettings Rat) (frame : Frame Rat) (width y : Rat)
    (branches : List (Extent Rat)) : List (Frame Rat) :=
  (branchSlots settings width y branches).map fun slot => frame.shifted slot.corner

theorem branchFrames_cons (width y : Rat) (branch : Extent Rat) (rest : List (Extent Rat)) :
    branchFrames settings frame width y (branch :: rest) =
      frame.shifted ⟨branchIndent settings.branchAlignment width branch, y⟩ ::
        branchFrames settings frame width (y + (branch.height + settings.parallelSpacing)) rest :=
  rfl

theorem branchFrames_append (width y : Rat) (before after : List (Extent Rat)) :
    branchFrames settings frame width y (before ++ after) =
      branchFrames settings frame width y before ++
        branchFrames settings frame width (y + (branchPitches settings before).sum) after := by
  induction before generalizing y with
  | nil => simp [branchFrames, branchSlots, branchPitches]
  | cons branch rest ih =>
      simp [branchFrames_cons, ih, branchPitches, add_assoc]

theorem branchIndent_add (alignment : BranchAlignment) (width : Rat) (nested branch : Extent Rat) :
    branchIndent alignment width nested + branchIndent alignment nested.width branch =
      branchIndent alignment width branch := by
  cases alignment with
  | center =>
      simp only [branchIndent, Scalar.half_eq]
      linarith
  | left | other => simp [branchIndent]

/-- In a nested group the branches are indented by as much as they are in the
wider group, after the indent of the nested group itself. -/
theorem branchFrames_shifted (width x y : Rat) (nested : Extent Rat) (inner : List (Extent Rat)) :
    branchFrames settings
        (frame.shifted ⟨branchIndent settings.branchAlignment width nested, x⟩)
        nested.width y inner =
      branchFrames settings frame width (x + y) inner := by
  induction inner generalizing y with
  | nil => rfl
  | cons branch rest ih =>
      rw [branchFrames_cons, branchFrames_cons, ih, add_assoc, Frame.shifted,
        frame.point_shifted, Point.mk_add_mk, branchIndent_add]
      rfl

/-- The frames of the parts of a group that is placed in `frame`. -/
def GroupKind.frames (settings : LayoutSettings Rat) (extent : Extent Rat) (frame : Frame Rat) :
    GroupKind → List (Extent Rat) → List (Frame Rat)
  | series, members => seriesFrames frame extent.leftPort.y 0 members
  | parallel, branches => branchFrames settings frame extent.width 0 branches

theorem GroupKind.partFrames_eq {kind : GroupKind} {extent : Extent Rat} {circuits : List Circuit}
    (isGroup : extent.circuit = kind.group circuits) (parts : List (Extent Rat)) :
    partFrames settings extent parts frame = kind.frames settings extent frame parts := by
  cases kind <;> rw [partFrames, isGroup] <;> rfl

theorem GroupKind.length_frames (kind : GroupKind) (extent : Extent Rat)
    (parts : List (Extent Rat)) :
    (kind.frames settings extent frame parts).length = parts.length := by
  have shorter : ∀ index : Nat, (kind.frames settings extent frame parts)[index]? = none ↔
      parts[index]? = none := by
    intro index
    cases kind with
    | series => simp [frames, seriesFrames_getElem?]
    | parallel => simp [frames, branchFrames, branchSlots_getElem?]
  simp only [List.getElem?_eq_none_iff] at shorter
  exact le_antisymm ((shorter _).mpr le_rfl) ((shorter _).mp le_rfl)

/-- The parts of a nested group are placed in the frames that they have in the
flattened group. -/
theorem GroupKind.frames_flatten {kind : GroupKind} {inside : Circuit} {nested : Extent Rat}
    {inner : List (Extent Rat)}
    (nestedMeasured : kind.extent settings inside inner = .ok nested)
    (extent : Extent Rat) (before after : List (Extent Rat)) (frame : Frame Rat) :
    ∃ middle last,
      kind.frames settings extent frame (before ++ nested :: after) =
        kind.frames settings extent frame before ++ middle :: last ∧
      kind.frames settings extent frame (before ++ (inner ++ after)) =
        kind.frames settings extent frame before ++
          (kind.frames settings nested middle inner ++ last) := by
  cases kind with
  | series =>
      obtain ⟨ascent, descent, -, -, rfl⟩ := seriesExtent_eq_ok.mp nestedMeasured
      refine ⟨_, _, seriesFrames_append _ _ _ _, ?_⟩
      change seriesFrames frame extent.leftPort.y 0 _ = seriesFrames frame extent.leftPort.y 0 _ ++
        (seriesFrames (frame.shifted _) ascent 0 inner ++ _)
      rw [seriesFrames_append, seriesFrames_append, seriesFrames_shifted]
      simp
  | parallel =>
      obtain ⟨width, height, -, pitches, rfl⟩ := parallelExtent_eq_ok.mp nestedMeasured
      refine ⟨_, _, branchFrames_append _ _ _ _, ?_⟩
      change branchFrames settings frame extent.width 0 _ =
        branchFrames settings frame extent.width 0 _ ++
          (branchFrames settings (frame.shifted _) width 0 inner ++ _)
      rw [branchFrames_append, branchFrames_append, branchFrames_shifted]
      simp [← pitches, branchFrames]

end

end Schematic
