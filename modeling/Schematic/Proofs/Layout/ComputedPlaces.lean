import Schematic.Proofs.Layout.ComputedSizes

/-!
# Places in double precision

A part is placed in the frame of its group at most `6 n` units away from it, where
`n` is the number of elements of the group.  So double precision computes exactly
where the parts of a group are and which wires it has, as long as that many units
fit beside those of the frame.
-/

namespace Schematic

open Number (Scale wholes halves)

variable {scale : Scale} {computedSettings : LayoutSettings Float} {settings : LayoutSettings Rat}
  {start count : Nat} {computedFrame : Frame Float} {frame : Frame Rat}
  (distances : computedSettings.Rel (scale.Holds 1) settings) (settingsWhole : settings.IsWhole)
  (frames : computedFrame.Rel (scale.Holds start) frame)
  (room : start + 6 * count ≤ scale.room)

/-- Points that are held with few units are held with more. -/
theorem Point.Rel.holds_mono {few more : Nat} {computed : Point Float} {exact : Point Rat}
    (points : computed.Rel (scale.Holds few) exact) (atMost : few ≤ more) :
    computed.Rel (scale.Holds more) exact :=
  points.mono fun _ _ holds => holds.mono atMost

/-! ## Series groups -/

section

include frames room

theorem seriesFrames_related {computed : List (Extent Float)} {exact : List (Extent Rat)}
    (parts : List.Forall₂ scale.Sizes computed exact) {line : Float} {exactLine : Rat}
    (lines : scale.Holds (2 * count) line exactLine) {used : Nat} {x : Float} {exactX : Rat}
    (left : scale.Holds used x exactX) (fits : used + 2 * elementCounts exact ≤ 2 * count) :
    List.Forall₂ (Frame.Rel (scale.Holds (start + 6 * count)))
      (seriesFrames computedFrame line x computed) (seriesFrames frame exactLine exactX exact) := by
  -- The members that are left need no more units than are left of `2 count`.
  induction parts generalizing used x exactX with
  | nil => exact .nil
  | @cons _ member _ others first rest ih =>
      simp only [elementCounts, List.map_cons, List.sum_cons] at ih fits
      have width := first.extents.width
      have corner : Point.Rel (scale.Holds (6 * count)) ⟨_, _⟩ ⟨_, _⟩ :=
        ⟨left.mono (by omega),
          (lines.sub first.extents.leftPort.y (by omega)).mono (by omega)⟩
      exact .cons ⟨frames.point corner room, frames.rotated⟩
        (ih (left.add width (by omega)) (by omega))

end

/-! ## Parallel groups -/

/-- A branch of a group of `count` elements with its corner in both arithmetics. -/
structure Number.Scale.Branches (scale : Scale) (count : Nat) (computed : BranchSlot Float)
    (exact : BranchSlot Rat) : Prop where
  branch : computed.branch.Rel (scale.Holds (2 * count - 1)) exact.branch
  corner : computed.corner.Rel (scale.Holds (2 * count)) exact.corner

namespace Number.Scale.Branches

variable {computed : BranchSlot Float} {exact : BranchSlot Rat}
  (slots : scale.Branches count computed exact) (room : 6 * count ≤ scale.room)

include slots room

theorem leftPort : computed.leftPort.Rel (scale.Holds (6 * count)) exact.leftPort :=
  ⟨slots.corner.x.mono (by omega),
    (slots.corner.y.add slots.branch.leftPort.y (by omega)).mono (by omega)⟩

theorem rightPort : computed.rightPort.Rel (scale.Holds (6 * count)) exact.rightPort :=
  ⟨(slots.corner.x.add slots.branch.width (by omega)).mono (by omega),
    (slots.corner.y.add slots.branch.rightPort.y (by omega)).mono (by omega)⟩

end Number.Scale.Branches

section

variable {computed : List (Extent Float)} {exact : List (Extent Rat)} {width : Float}
  {exactWidth : Rat}

include distances in
theorem branchSlots_related (parts : List.Forall₂ scale.Sizes computed exact)
    (wide : scale.Holds (2 * count) width exactWidth) (whole : exactWidth ∈ wholes)
    (room : 6 * count ≤ scale.room) {used : Nat} {y : Float} {exactY : Rat}
    (top : scale.Holds used y exactY) (fits : used + 2 * elementCounts exact ≤ 2 * count) :
    List.Forall₂ (scale.Branches count) (branchSlots computedSettings width y computed)
      (branchSlots settings exactWidth exactY exact) := by
  induction parts generalizing used y exactY with
  | nil => exact .nil
  | @cons computedBranch branch _ others first rest ih =>
      have inhabited := first.inhabited
      simp only [elementCounts, List.map_cons, List.sum_cons] at ih fits
      have extents : Extent.Rel (scale.Holds (2 * count - 1)) _ _ := first.mono (by omega)
      have indent : scale.Holds (2 * count)
          (branchIndent computedSettings.branchAlignment width computedBranch)
          (branchIndent settings.branchAlignment exactWidth branch) := by
        rw [distances.branchAlignment]
        unfold branchIndent
        split
        · have gap : scale.Holds (2 * (2 * count)) _ _ :=
            (wide.sub extents.width (by omega)).mono (by omega)
          exact gap.scalar_half (wholes.sub_mem whole first.whole.width) (by omega)
        · exact scale.holds_zero _
      have pitch := first.extents.height.add distances.parallelSpacing (by omega)
      exact .cons ⟨extents, indent, top.mono (by omega)⟩
        (ih (top.add pitch (by omega)) (by omega))

theorem insertTap_related {taps : List Float} {exactTaps : List Rat} {tap : Float} {exactTap : Rat}
    (ordered : List.Forall₂ (scale.Holds count) taps exactTaps)
    (inserted : scale.Holds count tap exactTap) :
    List.Forall₂ (scale.Holds count) (insertTap tap taps) (insertTap exactTap exactTaps) := by
  induction ordered with
  | nil => exact .cons inserted .nil
  | @cons first exactFirst rest exactRest firsts others ih =>
      have less := inserted.exact.lt_iff firsts.exact
      simp only [insertTap, inserted.beq_eq firsts, less]
      split_ifs
      · exact .cons firsts others
      · exact .cons inserted (.cons firsts others)
      · exact .cons firsts ih

theorem busTaps_related {port : Float} {exactPort : Rat} {ports : List Float}
    {exactPorts : List Rat} (ofGroup : scale.Holds count port exactPort)
    (ofBranches : List.Forall₂ (scale.Holds count) ports exactPorts) :
    List.Forall₂ (scale.Holds count) (busTaps port ports) (busTaps exactPort exactPorts) := by
  refine List.rel_foldl (fun _ _ taps _ _ tap => ?_) (.cons ofGroup .nil) ofBranches
  exact insertTap_related taps tap

include frames room

theorem busWires_related {x : Float} {exactX : Rat} (bus : scale.Holds (6 * count) x exactX)
    {taps : List Float} {exactTaps : List Rat}
    (ordered : List.Forall₂ (scale.Holds (6 * count)) taps exactTaps) :
    List.Forall₂ (Wire.Rel (scale.Holds (start + 6 * count))) (busWires computedFrame x taps)
      (busWires frame exactX exactTaps) := by
  induction ordered with
  | nil => exact .nil
  | cons top rest ih =>
      cases rest with
      | nil => exact .nil
      | cons bottom rest =>
          exact List.rel_append (frames.connect ⟨bus, top⟩ ⟨bus, bottom⟩ room) ih

theorem parallelWires_related {extent : Extent Float} {exactExtent : Extent Rat}
    (extents : extent.Rel (scale.Holds (2 * count)) exactExtent) {slots : List (BranchSlot Float)}
    {exactSlots : List (BranchSlot Rat)}
    (branches : List.Forall₂ (scale.Branches count) slots exactSlots) :
    List.Forall₂ (Wire.Rel (scale.Holds (start + 6 * count)))
      (parallelWires computedFrame extent slots) (parallelWires frame exactExtent exactSlots) := by
  have zero := scale.holds_zero (6 * count)
  have wide : scale.Holds (6 * count) _ _ := extents.width.mono (by omega)
  have port : scale.Holds (6 * count) _ _ := extents.leftPort.y.mono (by omega)
  have leftPorts : List.Forall₂ (scale.Holds (6 * count))
      (slots.map fun slot => slot.leftPort.y) (exactSlots.map fun slot => slot.leftPort.y) :=
    List.rel_map (fun _ _ slots => (slots.leftPort (by omega)).y) branches
  have rightPorts : List.Forall₂ (scale.Holds (6 * count))
      (slots.map fun slot => slot.rightPort.y) (exactSlots.map fun slot => slot.rightPort.y) :=
    List.rel_map (fun _ _ slots => (slots.rightPort (by omega)).y) branches
  refine List.rel_append (List.rel_append (List.rel_flatMap branches fun _ _ slots => ?_)
    (busWires_related frames room zero (busTaps_related port leftPorts)))
    (busWires_related frames room wide (busTaps_related port rightPorts))
  have left := slots.leftPort (by omega)
  have right := slots.rightPort (by omega)
  have leftBus : Point.Rel (scale.Holds (6 * count)) ⟨_, _⟩ ⟨_, _⟩ := ⟨zero, left.y⟩
  have rightBus : Point.Rel (scale.Holds (6 * count)) ⟨_, _⟩ ⟨_, _⟩ := ⟨wide, right.y⟩
  exact List.rel_append (frames.connect leftBus left room) (frames.connect right rightBus room)

end

/-! ## Twoports -/

/-- The slot of a link of a twoport of `count` elements in both arithmetics. -/
structure Number.Scale.Slots (scale : Scale) (count : Nat) (computed : LinkSlot Float)
    (exact : LinkSlot Rat) : Prop where
  kind : computed.kind = exact.kind
  target : computed.target.Rel (scale.Holds (2 * count - 1)) exact.target
  start : scale.Holds (2 * count) computed.start exact.start
  width : scale.Holds (2 * count) computed.width exact.width
  whole : exact.width ∈ wholes

section

variable {computedLinks : List (LinkKind × Extent Float)} {links : List (LinkKind × Extent Rat)}

include distances settingsWhole in
theorem linkSlots_related (related : List.Forall₂ scale.LinkSizes computedLinks links)
    (room : 6 * count ≤ scale.room) {used : Nat} {x : Float} {exactX : Rat}
    (left : scale.Holds used x exactX)
    (fits : used + 2 * elementCounts (links.map Prod.snd) ≤ 2 * count) :
    List.Forall₂ (scale.Slots count) (linkSlots computedSettings x computedLinks)
      (linkSlots settings exactX links) := by
  induction related generalizing used x exactX with
  | nil => exact .nil
  | @cons computedLink link _ others first rest ih =>
      simp only [elementCounts, List.map_cons, List.sum_cons] at ih fits
      have width := slotWidth_holds distances first
      have whole : slotWidth settings link ∈ wholes :=
        slotWidth_mem settingsWhole (List.forall_mem_singleton.mpr first.target.whole)
          (List.mem_singleton_self link)
      exact .cons ⟨first.kind, first.target.mono (by omega), left.mono (by omega),
          width.mono (by omega), whole⟩
        (ih (left.add width (by omega)) (by omega))

variable {computedLines : TwoportLines Float} {lines : TwoportLines Rat}
  (linesHold : scale.Lines count computedLines lines) {slot : LinkSlot Float}
  {exactSlot : LinkSlot Rat} (slots : scale.Slots count slot exactSlot)

theorem Number.Scale.Slots.middle (slots : scale.Slots count slot exactSlot)
    (room : 6 * count ≤ scale.room) :
    scale.Holds (3 * count) slot.middle exactSlot.middle :=
  (slots.start.add (slots.width.scalar_half slots.whole (by omega)) (by omega)).mono (by omega)

include frames room linesHold

theorem pair_related {first last : Float} {exactFirst exactLast : Rat}
    (firsts : scale.Holds (6 * count) first exactFirst)
    (lasts : scale.Holds (6 * count) last exactLast) :
    List.Forall₂ (Wire.Rel (scale.Holds (start + 6 * count)))
      (LinkSlot.pair computedFrame computedLines first last)
      (LinkSlot.pair frame lines exactFirst exactLast) := by
  have signal : scale.Holds (6 * count) _ _ := linesHold.signal.mono (by omega)
  exact List.rel_append (frames.connect ⟨firsts, signal⟩ ⟨lasts, signal⟩ room)
    (frames.connect ⟨firsts, linesHold.rail⟩ ⟨lasts, linesHold.rail⟩ room)

include slots

theorem targetFrame_related :
    (slot.targetFrame computedFrame computedLines).Rel (scale.Holds (start + 6 * count))
      (exactSlot.targetFrame frame lines) := by
  unfold LinkSlot.targetFrame
  rw [slots.kind]
  split
  · have corner : Point.Rel (scale.Holds (6 * count)) ⟨_, _⟩ ⟨_, _⟩ :=
      ⟨slots.start.mono (by omega),
        (linesHold.signal.sub slots.target.leftPort.y (by omega)).mono (by omega)⟩
    exact ⟨frames.point corner room, frames.rotated⟩
  · have corner : Point.Rel (scale.Holds (6 * count)) ⟨_, _⟩ ⟨_, _⟩ :=
      ⟨((slots.middle (by omega)).sub slots.target.leftPort.y (by omega)).mono (by omega),
        linesHold.shuntTop.mono (by omega)⟩
    exact ⟨frames.point corner room, congrArg not frames.rotated⟩

theorem linkWires_related (isFirst isLast : Bool) :
    List.Forall₂ (Wire.Rel (scale.Holds (start + 6 * count)))
      (slot.wires computedFrame computedLines isFirst isLast)
      (exactSlot.wires frame lines isFirst isLast) := by
  have left : scale.Holds (6 * count) _ _ := slots.start.mono (by omega)
  have right : scale.Holds (6 * count) slot.finish exactSlot.finish :=
    (slots.start.add slots.width (by omega)).mono (by omega)
  have middle : scale.Holds (6 * count) _ _ := (slots.middle (by omega)).mono (by omega)
  have signal : scale.Holds (6 * count) _ _ := linesHold.signal.mono (by omega)
  have top : scale.Holds (6 * count) _ _ := linesHold.shuntTop.mono (by omega)
  have bottom : scale.Holds (6 * count) _ _ :=
    (linesHold.shuntTop.add slots.target.width (by omega)).mono (by omega)
  have rail := linesHold.rail
  unfold LinkSlot.wires
  rw [slots.kind]
  split
  · exact frames.connect ⟨left, rail⟩ ⟨right, rail⟩ room
  · refine List.rel_append (List.rel_append (List.rel_append ?_ ?_) ?_) ?_
    · exact frames.connect ⟨middle, signal⟩ ⟨middle, top⟩ room
    · exact frames.connect ⟨middle, bottom⟩ ⟨middle, rail⟩ room
    · split
      · exact .nil
      · exact pair_related frames room linesHold left middle
    · split
      · exact .nil
      · exact pair_related frames room linesHold middle right

omit slots

theorem slotWires_related {slots : List (LinkSlot Float)} {exactSlots : List (LinkSlot Rat)}
    (related : List.Forall₂ (scale.Slots count) slots exactSlots) (isFirst : Bool) :
    List.Forall₂ (Wire.Rel (scale.Holds (start + 6 * count)))
      (slotWires computedFrame computedLines isFirst slots)
      (slotWires frame lines isFirst exactSlots) := by
  induction related generalizing isFirst with
  | nil => exact .nil
  | @cons _ _ others exactOthers first rest ih =>
      have isLast : others.isEmpty = exactOthers.isEmpty := by
        cases rest <;> rfl
      rw [slotWires, slotWires, isLast]
      exact List.rel_append (linkWires_related frames room linesHold first isFirst _) (ih false)

end

/-! ## All circuits -/

section

variable {extent : Extent Float} {exactExtent : Extent Rat} {computed : List (Extent Float)}
  {exact : List (Extent Rat)}
  (extents : extent.Rel (scale.Holds (6 * count)) exactExtent)
  (sizes : (∀ links, exactExtent.circuit ≠ .twoport links) →
    extent.Rel (scale.Holds (2 * count - 1)) exactExtent ∧ exactExtent.width ∈ wholes)
  (parts : List.Forall₂ scale.Sizes computed exact)
  (few : elementCounts exact ≤ count) (positive : 1 ≤ count)

include frames extents in
theorem barePlacement_related :
    (barePlacement extent computedFrame).Rel (scale.Holds (start + 6 * count))
      (barePlacement exactExtent frame) := by
  have drawn : extent.Rel (scale.Holds (start + 6 * count)) exactExtent :=
    extents.mono fun _ _ holds => holds.mono (by omega)
  have size : Point.Rel _ ⟨_, _⟩ ⟨_, _⟩ := ⟨drawn.width, drawn.height⟩
  have inDrawing := frames.offset size
  exact {
    circuit := extents.circuit
    origin := frames.origin.holds_mono (by omega)
    width := inDrawing.x
    height := inDrawing.y
    leftPort := frames.offset drawn.leftPort
    rightPort := frames.offset drawn.rightPort
    rotated := frames.rotated
    wires := .nil
    leftBus := .none
    rightBus := .none
    rail := .none }

include distances settingsWhole parts few positive in
theorem twoportSlots_related (room : 6 * count ≤ scale.room) (kinds : List LinkKind) :
    scale.Lines count (twoportLines computedSettings (kinds.zip computed))
        (twoportLines settings (kinds.zip exact)) ∧
      List.Forall₂ (scale.Slots count)
        (linkSlots computedSettings Scalar.zero (kinds.zip computed))
        (linkSlots settings Scalar.zero (kinds.zip exact)) := by
  obtain ⟨links, fewer⟩ := zip_linkSizes parts kinds
  exact ⟨twoportLines_holds distances links (fewer.trans few) positive room,
    linkSlots_related distances settingsWhole links room (scale.holds_zero 0) (by omega)⟩

include distances settingsWhole frames room extents sizes parts few positive

theorem partFrames_related :
    List.Forall₂ (Frame.Rel (scale.Holds (start + 6 * count)))
      (partFrames computedSettings extent computed computedFrame)
      (partFrames settings exactExtent exact frame) := by
  have zero := scale.holds_zero 0
  unfold partFrames
  rw [extents.circuit]
  cases same : exactExtent.circuit with
  | element | link => exact .nil
  | series members =>
      obtain ⟨small, -⟩ := sizes fun links isTwoport => by
        rw [same] at isTwoport
        cases isTwoport
      have line : scale.Holds (2 * count) _ _ := small.leftPort.y.mono (by omega)
      exact seriesFrames_related frames room parts line zero (by omega)
  | parallel branches =>
      obtain ⟨small, whole⟩ := sizes fun links isTwoport => by
        rw [same] at isTwoport
        cases isTwoport
      have wide : scale.Holds (2 * count) _ _ := small.width.mono (by omega)
      have slots := branchSlots_related distances parts wide whole (by omega) zero (by omega)
      refine List.rel_map (fun _ _ slot => ⟨?_, frames.rotated⟩) slots
      exact frames.point (slot.corner.holds_mono (by omega)) room
  | twoport links =>
      obtain ⟨lines, slots⟩ := twoportSlots_related distances settingsWhole parts few positive
        (by omega) (links.map Link.kind)
      exact List.rel_map (fun _ _ slot => targetFrame_related frames room lines slot) slots

theorem placement_related :
    (placement computedSettings extent computed computedFrame).Rel
      (scale.Holds (start + 6 * count)) (placement settings exactExtent exact frame) := by
  have zero := scale.holds_zero
  have bare := barePlacement_related frames extents
  unfold placement
  rw [extents.circuit]
  cases same : exactExtent.circuit with
  | element | series | link => exact bare
  | parallel branches =>
      obtain ⟨small, whole⟩ := sizes fun links isTwoport => by
        rw [same] at isTwoport
        cases isTwoport
      have wide : scale.Holds (2 * count) _ _ := small.width.mono (by omega)
      have slots := branchSlots_related distances parts wide whole (by omega) (zero 0) (by omega)
      have port := extents.leftPort.y
      exact {
        bare with
        wires := parallelWires_related frames room
          (small.mono fun _ _ holds => holds.mono (by omega)) slots
        leftBus := .some (frames.alongSignal ⟨zero _, port⟩ room)
        rightBus := .some (frames.alongSignal ⟨extents.width, port⟩ room) }
  | twoport links =>
      obtain ⟨lines, slots⟩ := twoportSlots_related distances settingsWhole parts few positive
        (by omega) (links.map Link.kind)
      exact {
        bare with
        wires := slotWires_related frames room lines slots true
        rail := .some (frames.point ⟨zero _, lines.rail⟩ room).y }

end

end Schematic
