import Schematic.Proofs.Layout.Frames

/-!
# Motions of drawings

A drawing can be shifted, and its two axes can be exchanged.  Placing a circuit
commutes with both: a part is placed in a frame that is found from the frame of
the whole circuit, so moving the whole circuit moves the part in the same way.
Only the return rail of a twoport is not found in this way, for its height is
taken from the drawing; so the axes are exchanged for other circuits only.
-/

namespace Schematic

/-- A change of the place of a drawing: its axes may be exchanged, and then all
of it is shifted. -/
structure Motion where
  /-- Whether the axes are exchanged. -/
  turns : Bool
  /-- How far the drawing is shifted. -/
  shift : Point Rat

namespace Motion

variable (motion : Motion)

/-- Where an offset between two points is taken. -/
def offset (offset : Point Rat) : Point Rat :=
  if motion.turns then offset.transposed else offset

/-- Where a point is taken. -/
def point (point : Point Rat) : Point Rat :=
  motion.offset point + motion.shift

/-- Where a wire is taken. -/
def wire (wire : Wire Rat) : Wire Rat :=
  ⟨motion.point wire.start, motion.point wire.finish⟩

/-- Where a frame is taken. -/
def frame (frame : Frame Rat) : Frame Rat :=
  ⟨motion.point frame.origin, frame.rotated ^^ motion.turns⟩

/-- Where a placed circuit is taken.  A bus is shifted along the signal, and a
rail downwards. -/
def placement (placement : Placement Rat) : Placement Rat :=
  let size := motion.offset ⟨placement.width, placement.height⟩
  let rotated := placement.rotated ^^ motion.turns
  let along := if rotated then motion.shift.y else motion.shift.x
  { circuit := placement.circuit
    origin := motion.point placement.origin
    width := size.x
    height := size.y
    leftPort := motion.offset placement.leftPort
    rightPort := motion.offset placement.rightPort
    rotated
    wires := placement.wires.map motion.wire
    leftBus := placement.leftBus.map (· + along)
    rightBus := placement.rightBus.map (· + along)
    rail := placement.rail.map (· + motion.shift.y) }

/-! ## Points and wires of moved frames -/

variable (local_ : Frame Rat)

@[simp]
theorem frame_rotated : (motion.frame local_).rotated = (local_.rotated ^^ motion.turns) :=
  rfl

theorem frame_offset (point : Point Rat) :
    (motion.frame local_).offset point = motion.offset (local_.offset point) := by
  cases turns : motion.turns <;> cases rotated : local_.rotated <;>
    simp [Frame.offset, offset, turns, rotated, Point.transposed]

theorem point_add (point offset : Point Rat) :
    motion.point (point + offset) = motion.point point + motion.offset offset := by
  apply Point.eq_of_coordinates
  all_goals
    cases turns : motion.turns <;>
      simp [Motion.point, Motion.offset, turns, Point.transposed, add_right_comm]

theorem frame_point (point : Point Rat) :
    (motion.frame local_).point point = motion.point (local_.point point) := by
  rw [Frame.point, Frame.point, point_add, frame_offset]
  rfl

theorem frame_connect (start finish : Point Rat) :
    (motion.frame local_).connect start finish =
      (local_.connect start finish).map motion.wire := by
  unfold Frame.connect
  split
  · rfl
  · simp only [Frame.wire, frame_point, List.map_cons, List.map_nil, wire]

/-! ## Parallel groups -/

theorem stubs_frame (width : Rat) :
    BranchSlot.stubs (motion.frame local_) width =
      fun slot => (BranchSlot.stubs local_ width slot).map motion.wire := by
  funext slot
  simp only [BranchSlot.stubs, frame_connect, List.map_append]

theorem busWires_frame (x : Rat) (taps : List Rat) :
    busWires (motion.frame local_) x taps = (busWires local_ x taps).map motion.wire := by
  fun_induction busWires local_ x taps with
  | case1 top bottom rest ih => rw [busWires, frame_connect, ih, List.map_append]
  | case2 taps short =>
      rw [busWires]
      · rfl
      · exact short

theorem parallelWires_frame (extent : Extent Rat) (slots : List (BranchSlot Rat)) :
    parallelWires (motion.frame local_) extent slots =
      (parallelWires local_ extent slots).map motion.wire := by
  simp only [parallelWires, busWires_frame, List.map_append, List.map_flatMap, stubs_frame]

/-! ## Twoports -/

theorem pair_frame (lines : TwoportLines Rat) (start finish : Rat) :
    LinkSlot.pair (motion.frame local_) lines start finish =
      (LinkSlot.pair local_ lines start finish).map motion.wire := by
  simp only [LinkSlot.pair, frame_connect, List.map_append]

theorem linkWires_frame (lines : TwoportLines Rat) (isFirst isLast : Bool)
    (slot : LinkSlot Rat) :
    slot.wires (motion.frame local_) lines isFirst isLast =
      (slot.wires local_ lines isFirst isLast).map motion.wire := by
  unfold LinkSlot.wires
  cases slot.kind with
  | series => exact motion.frame_connect local_ _ _
  | shunt =>
      cases isFirst <;> cases isLast <;>
        simp only [frame_connect, pair_frame, List.map_append] <;> rfl

theorem slotWires_frame (lines : TwoportLines Rat) (isFirst : Bool)
    (slots : List (LinkSlot Rat)) :
    slotWires (motion.frame local_) lines isFirst slots =
      (slotWires local_ lines isFirst slots).map motion.wire := by
  induction slots generalizing isFirst with
  | nil => rfl
  | cons slot rest ih => rw [slotWires, slotWires, linkWires_frame, ih, List.map_append]

theorem targetFrame_frame (lines : TwoportLines Rat) :
    LinkSlot.targetFrame (motion.frame local_) lines =
      motion.frame ∘ LinkSlot.targetFrame local_ lines := by
  funext slot
  rw [Function.comp_apply, LinkSlot.targetFrame, LinkSlot.targetFrame]
  cases slot.kind with
  | series =>
      dsimp only
      rw [frame_point]
      rfl
  | shunt =>
      dsimp only
      rw [frame_point, frame_rotated, ← Bool.not_xor]
      rfl

/-! ## All circuits -/

theorem seriesFrames_frame (line x : Rat) (members : List (Extent Rat)) :
    seriesFrames (motion.frame local_) line x members =
      (seriesFrames local_ line x members).map motion.frame := by
  induction members generalizing x with
  | nil => rfl
  | cons member rest ih =>
      rw [seriesFrames, seriesFrames, ih, frame_point, List.map_cons]
      rfl

variable (settings : LayoutSettings Rat) (extent : Extent Rat) (parts : List (Extent Rat))

/-- The frames of the parts move with the frame of their circuit. -/
theorem partFrames_frame :
    partFrames settings extent parts (motion.frame local_) =
      (partFrames settings extent parts local_).map motion.frame := by
  unfold partFrames
  cases extent.circuit with
  | series members => exact motion.seriesFrames_frame local_ _ _ _
  | parallel branches => simp only [frame_point, List.map_map]; rfl
  | twoport links => simp only [targetFrame_frame, List.map_map]
  | element | link => rfl

theorem barePlacement_frame :
    barePlacement extent (motion.frame local_) =
      motion.placement (barePlacement extent local_) := by
  cases turns : motion.turns <;> cases rotated : local_.rotated <;>
    simp [barePlacement, placement, frame, Frame.offset, offset, turns, rotated,
      Point.transposed]

/-- A bus moves along the signal, whichever way the signal runs. -/
theorem alongSignal_frame (point : Point Rat) :
    alongSignal (motion.frame local_) point = alongSignal local_ point +
      if local_.rotated ^^ motion.turns then motion.shift.y else motion.shift.x := by
  unfold alongSignal
  rw [frame_point]
  cases turns : motion.turns <;> cases rotated : local_.rotated <;>
    simp [Motion.point, offset, turns, rotated, Point.transposed]

/-- A placed circuit moves with its frame. -/
theorem placement_frame
    (upright : motion.turns = true → ∀ links, extent.circuit ≠ .twoport links) :
    Schematic.placement settings extent parts (motion.frame local_) =
      motion.placement (Schematic.placement settings extent parts local_) := by
  unfold Schematic.placement
  rw [barePlacement_frame]
  cases circuit : extent.circuit with
  | parallel branches =>
      simp only [parallelWires_frame, alongSignal_frame]
      rfl
  | twoport links =>
      have still : motion.turns = false := by
        cases turns : motion.turns with
        | false => rfl
        | true => exact absurd circuit (upright turns links)
      simp only [slotWires_frame, frame_point]
      simp [placement, Motion.point, offset, still, barePlacement]
  | element | series | link => rfl

end Motion

end Schematic
