import Schematic.Proofs.Alignment.Accepted
import Schematic.Proofs.Layout.Slots
import Schematic.Proofs.Layout.Spans

/-!
# Signal lines and rails

A slot of a twoport draws wires on its own half of the way to its neighbours only.
Nevertheless the wires of all slots make one return rail, and together with the
series targets one signal line, for links of all kinds in any order.  Both lines end
at the outermost links.
-/

namespace Schematic

/-- The part of a line that a wire covers. -/
def Wire.span (wire : Wire Rat) : Rat × Rat :=
  (wire.start.x, wire.finish.x)

/-- Wires that run to the right at one height. -/
def RunsAt (height : Rat) (wires : List (Wire Rat)) : Prop :=
  ∀ wire ∈ wires, wire.start.y = height ∧ wire.finish.y = height ∧ wire.start.x < wire.finish.x

/-- Wires that continue the signal line and the rail of a twoport from one place to
another, where targets take the place of signal wires at some spans.  The leads are not
on these lines. -/
def IsSection (signal rail low : Rat) (wires leads : List (Wire Rat)) (spans : List (Rat × Rat))
    (high : Rat) : Prop :=
  ∃ railWires signalWires pieces,
    wires.Perm (railWires ++ signalWires ++ leads) ∧
    RunsAt rail railWires ∧ Spans low (railWires.map Wire.span) high ∧
    RunsAt signal signalWires ∧ pieces.Perm (signalWires.map Wire.span ++ spans) ∧
    Spans low pieces high

/-! ## Sections -/

theorem RunsAt.nil (height : Rat) : RunsAt height [] :=
  List.forall_mem_nil _

theorem RunsAt.append {height : Rat} {first second : List (Wire Rat)} (left : RunsAt height first)
    (right : RunsAt height second) : RunsAt height (first ++ second) :=
  List.forall_mem_append.mpr ⟨left, right⟩

/-- The wire between two places of a line, which is missing if they are the same. -/
theorem between_level {low high : Rat} (ordered : low ≤ high) (height : Rat) :
    RunsAt height (Wire.between ⟨low, height⟩ ⟨high, height⟩) ∧
      Spans low ((Wire.between ⟨low, height⟩ ⟨high, height⟩).map Wire.span) high := by
  rcases ordered.eq_or_lt with rfl | apart
  · rw [Wire.between, if_pos rfl]
    exact ⟨.nil height, .nil low⟩
  · have different : (⟨low, height⟩ : Point Rat) ≠ ⟨high, height⟩ :=
      fun same => apart.ne (congrArg Point.x same)
    rw [Wire.between, if_neg different]
    exact ⟨List.forall_mem_singleton.mpr ⟨rfl, rfl, apart⟩, .cons ordered (.nil high)⟩

theorem upright_connect (corner : Point Rat) (x y otherX otherY : Rat) :
    (Frame.mk corner false).connect ⟨x, y⟩ ⟨otherX, otherY⟩ =
      Wire.between ⟨corner.x + x, corner.y + y⟩ ⟨corner.x + otherX, corner.y + otherY⟩ := by
  rw [Frame.connect_eq]
  rfl

namespace IsSection

variable {signal rail low middle high : Rat} {wires others leads otherLeads : List (Wire Rat)}
  {spans otherSpans : List (Rat × Rat)}

theorem perm (made : IsSection signal rail low wires leads spans high)
    (reordered : others.Perm wires) : IsSection signal rail low others leads spans high := by
  obtain ⟨railWires, signalWires, pieces, parts, rest⟩ := made
  exact ⟨railWires, signalWires, pieces, reordered.trans parts, rest⟩

/-- A section continues another one. -/
theorem append (left : IsSection signal rail low wires leads spans middle)
    (right : IsSection signal rail middle others otherLeads otherSpans high) :
    IsSection signal rail low (wires ++ others) (leads ++ otherLeads) (spans ++ otherSpans)
      high := by
  obtain ⟨railWires, signalWires, pieces, parts, onRail, railSpans, onSignal, cover, signalSpans⟩ :=
    left
  obtain ⟨otherRail, otherSignal, otherPieces, otherParts, otherOnRail, otherRailSpans,
    otherOnSignal, otherCover, otherSignalSpans⟩ := right
  refine ⟨railWires ++ otherRail, signalWires ++ otherSignal, pieces ++ otherPieces, ?_,
    onRail.append otherOnRail, ?_, onSignal.append otherOnSignal, ?_,
    signalSpans.append otherSignalSpans⟩
  · refine (parts.append otherParts).trans (List.perm_iff_count.mpr fun wire => ?_)
    simp only [List.count_append]
    omega
  · rw [List.map_append]
    exact railSpans.append otherRailSpans
  · refine (cover.append otherCover).trans (List.perm_iff_count.mpr fun piece => ?_)
    simp only [List.map_append, List.count_append]
    omega

/-- Leads are at one place of the lines. -/
theorem of_leads (leads : List (Wire Rat)) (place : Rat) :
    IsSection signal rail place leads leads [] place :=
  ⟨[], [], [], .rfl, .nil rail, .nil place, .nil signal, .nil, .nil place⟩

end IsSection

/-! ## Slots -/

namespace LinkSlot

/-- Where the lines go on behind a link: at the end of a series target, and in the middle
of the slot of a shunt. -/
def leave (slot : LinkSlot Rat) : Rat :=
  match slot.kind with
  | .series => slot.finish
  | .shunt => slot.middle

/-- Where the lines enter a slot, which is at its edge only if there is a link before it. -/
def entry (isFirst : Bool) (slot : LinkSlot Rat) : Rat :=
  if isFirst then slot.stop else slot.start

def exit (isLast : Bool) (slot : LinkSlot Rat) : Rat :=
  if isLast then slot.leave else slot.finish

/-- The leads of a shunt. -/
def leads (frame : Frame Rat) (lines : TwoportLines Rat) (slot : LinkSlot Rat) :
    List (Wire Rat) :=
  match slot.kind with
  | .series => []
  | .shunt =>
      frame.connect ⟨slot.middle, lines.signal⟩ ⟨slot.middle, lines.shuntTop⟩ ++
        frame.connect ⟨slot.middle, lines.shuntTop + slot.target.width⟩ ⟨slot.middle, lines.rail⟩

/-- The span of a series target, in the drawing of a twoport that starts at `left`. -/
def spans (left : Rat) (slot : LinkSlot Rat) : List (Rat × Rat) :=
  match slot.kind with
  | .series => [(left + slot.start, left + slot.finish)]
  | .shunt => []

variable {slot : LinkSlot Rat} {corner : Point Rat} {lines : TwoportLines Rat}

/-- The lines meet a link between the edges of its slot. -/
theorem stop_bounds (wide : 0 ≤ slot.width) :
    slot.start ≤ slot.stop ∧ slot.stop ≤ slot.leave ∧ slot.leave ≤ slot.finish := by
  obtain ⟨kind, target, start, width⟩ := slot
  cases kind <;> simp only [stop, leave, middle, finish, Scalar.half_eq] at wide ⊢ <;>
    refine ⟨?_, ?_, ?_⟩ <;> linarith

/-- Signal and rail between two places of a slot. -/
theorem isSection_pair {low high : Rat} (ordered : low ≤ high) :
    IsSection (corner.y + lines.signal) (corner.y + lines.rail) (corner.x + low)
      (pair ⟨corner, false⟩ lines low high) [] [] (corner.x + high) := by
  have moved : corner.x + low ≤ corner.x + high := add_le_add_right ordered _
  obtain ⟨onRail, railSpans⟩ := between_level moved (corner.y + lines.rail)
  obtain ⟨onSignal, signalSpans⟩ := between_level moved (corner.y + lines.signal)
  refine ⟨_, _, _, ?_, onRail, railSpans, onSignal, ?_, signalSpans⟩
  · rw [pair, upright_connect, upright_connect, List.append_nil]
    exact List.perm_append_comm
  · rw [List.append_nil]

theorem isSection_series (isSeries : slot.kind = .series) (wide : 0 ≤ slot.width)
    (isFirst isLast : Bool) :
    IsSection (corner.y + lines.signal) (corner.y + lines.rail) (corner.x + slot.start)
      (slot.wires ⟨corner, false⟩ lines isFirst isLast) [] (slot.spans corner.x)
      (corner.x + slot.finish) := by
  have moved : corner.x + slot.start ≤ corner.x + slot.finish :=
    add_le_add_right (le_add_of_nonneg_right wide) _
  obtain ⟨onRail, railSpans⟩ := between_level moved (corner.y + lines.rail)
  rw [wires, spans, isSeries]
  simp only [upright_connect]
  exact ⟨_, [], _, by simp, onRail, railSpans, .nil _, .rfl, .cons moved (.nil _)⟩

/-- The two halves of the lines are before and behind the leads. -/
theorem isSection_shunt (isShunt : slot.kind = .shunt) (wide : 0 ≤ slot.width)
    (isFirst isLast : Bool) :
    IsSection (corner.y + lines.signal) (corner.y + lines.rail)
      (corner.x + if isFirst then slot.middle else slot.start)
      (slot.wires ⟨corner, false⟩ lines isFirst isLast) (slot.leads ⟨corner, false⟩ lines) []
      (corner.x + if isLast then slot.middle else slot.finish) := by
  obtain ⟨first, second⟩ : slot.start ≤ slot.middle ∧ slot.middle ≤ slot.finish := by
    simp only [middle, finish, Scalar.half_eq]
    constructor <;> linarith
  have before : IsSection (corner.y + lines.signal) (corner.y + lines.rail)
      (corner.x + if isFirst then slot.middle else slot.start)
      (if isFirst then [] else pair ⟨corner, false⟩ lines slot.start slot.middle) [] []
      (corner.x + slot.middle) := by
    cases isFirst
    · exact isSection_pair first
    · exact .of_leads [] _
  have behind : IsSection (corner.y + lines.signal) (corner.y + lines.rail)
      (corner.x + slot.middle)
      (if isLast then [] else pair ⟨corner, false⟩ lines slot.middle slot.finish) [] []
      (corner.x + if isLast then slot.middle else slot.finish) := by
    cases isLast
    · exact isSection_pair second
    · exact .of_leads [] _
  have whole := (before.append (.of_leads (slot.leads ⟨corner, false⟩ lines) _)).append behind
  rw [List.nil_append, List.append_nil] at whole
  refine whole.perm ?_
  rw [wires, leads, isShunt]
  exact List.perm_append_comm.append_right _

/-- The wires of a slot continue the lines through the slot. -/
theorem isSection_wires (wide : 0 ≤ slot.width) (isFirst isLast : Bool) :
    IsSection (corner.y + lines.signal) (corner.y + lines.rail)
      (corner.x + slot.entry isFirst) (slot.wires ⟨corner, false⟩ lines isFirst isLast)
      (slot.leads ⟨corner, false⟩ lines) (slot.spans corner.x) (corner.x + slot.exit isLast) := by
  cases isKind : slot.kind with
  | series =>
      simpa only [entry, exit, stop, leave, leads, isKind, ite_self] using
        @isSection_series slot corner lines isKind wide isFirst isLast
  | shunt =>
      simpa only [entry, exit, stop, leave, spans, isKind] using
        @isSection_shunt slot corner lines isKind wide isFirst isLast

end LinkSlot

/-! ## Rows of slots -/

section

variable {corner : Point Rat} {lines : TwoportLines Rat} {first : LinkSlot Rat}
  {rest : List (LinkSlot Rat)}

/-- The wires of a row of slots make lines through all of it. -/
theorem isSection_slotWires (wide : ∀ slot ∈ first :: rest, 0 ≤ slot.width)
    (joined : (first :: rest).IsChain fun one next => one.finish = next.start) (isFirst : Bool) :
    IsSection (corner.y + lines.signal) (corner.y + lines.rail)
      (corner.x + first.entry isFirst) (slotWires ⟨corner, false⟩ lines isFirst (first :: rest))
      ((first :: rest).flatMap (LinkSlot.leads ⟨corner, false⟩ lines))
      ((first :: rest).flatMap (LinkSlot.spans corner.x))
      (corner.x + (rest.getLastD first).leave) := by
  induction rest generalizing first isFirst with
  | nil =>
      have only := @LinkSlot.isSection_wires first corner lines (wide first List.mem_cons_self)
        isFirst true
      simpa [slotWires, LinkSlot.exit] using only
  | cons second rest ih =>
      obtain ⟨firstWide, restWide⟩ := List.forall_mem_cons.mp wide
      obtain ⟨meet, restJoined⟩ := List.isChain_cons_cons.mp joined
      have start := @LinkSlot.isSection_wires first corner lines firstWide isFirst false
      have onwards := ih restWide restJoined false
      have seam : first.exit false = second.entry false := meet
      rw [slotWires, List.flatMap_cons, List.flatMap_cons, List.getLastD_cons]
      rw [seam] at start
      exact start.append onwards

/-- The middle of every shunt is on the lines. -/
theorem stop_between (isRow : IsRow (first :: rest)) {slot : LinkSlot Rat}
    (isSlot : slot ∈ first :: rest) :
    first.stop ≤ slot.stop ∧ slot.stop ≤ (rest.getLastD first).leave := by
  have stops : (first :: rest).Pairwise fun one next => one.stop ≤ next.stop := by
    refine isRow.ordered.imp_of_mem fun isOne isNext before => ?_
    obtain ⟨-, stopOne, leaveOne⟩ := LinkSlot.stop_bounds (isRow.wide _ isOne)
    obtain ⟨startNext, -, -⟩ := LinkSlot.stop_bounds (isRow.wide _ isNext)
    exact ((stopOne.trans leaveOne).trans before).trans startNext
  have isLast : rest.getLastD first ∈ first :: rest := List.getLastD_mem_cons
  obtain ⟨low, high⟩ := between_ends stops isSlot
  exact ⟨low, high.trans (LinkSlot.stop_bounds (isRow.wide _ isLast)).2.1⟩

end

/-! ## Targets -/

/-- The targets of the links of one kind. -/
def Layout.targets (kind : LinkKind) (network : Layout Rat) : List (Placement Rat) :=
  ((network.placement.circuit.linkKinds.zip (network.children.map Layout.placement)).filter
    fun link => link.1 == kind).map Prod.snd

namespace Placement

/-- The part of the signal line that a target takes. -/
def span (target : Placement Rat) : Rat × Rat :=
  (target.leftEnd.x, target.rightEnd.x)

/-- What joins a shunt to the signal line and to the rail: a wire straight down to its left
port and one from its right port, unless the port is on the line. -/
def leads (signal rail : Rat) (target : Placement Rat) : List (Wire Rat) :=
  Wire.between ⟨target.leftEnd.x, signal⟩ target.leftEnd ++
    Wire.between target.rightEnd ⟨target.rightEnd.x, rail⟩

end Placement

/-- Where the ports of the target of a slot are, in a twoport with the given corner. -/
structure LinkSlot.Carries (corner : Point Rat) (lines : TwoportLines Rat) (slot : LinkSlot Rat)
    (target : Placement Rat) : Prop where
  series : slot.kind = .series →
    target.leftEnd = ⟨corner.x + slot.start, corner.y + lines.signal⟩ ∧
      target.rightEnd = ⟨corner.x + slot.finish, corner.y + lines.signal⟩
  shunt : slot.kind = .shunt →
    target.leftEnd = ⟨corner.x + slot.middle, corner.y + lines.shuntTop⟩ ∧
      target.rightEnd =
        ⟨corner.x + slot.middle, corner.y + (lines.shuntTop + slot.target.width)⟩

/-- The signal line of a twoport and its rail have no gaps: both run from `low` to `high`, and
they have no other wires than the leads of the shunts. -/
structure Layout.HasLines (network : Layout Rat) (rail low high : Rat) : Prop where
  hasRail : network.placement.rail = some rail
  /-- The wires of the rail make one line, and so do the other wires with the spans of the
  series targets between them. -/
  wires : ∃ railWires signalWires pieces,
    network.placement.wires.Perm (railWires ++ signalWires ++
      (network.targets .shunt).flatMap (Placement.leads network.placement.leftEnd.y rail)) ∧
    RunsAt rail railWires ∧ Fills (railWires.map Wire.span) low high ∧
    RunsAt network.placement.leftEnd.y signalWires ∧
    pieces.Perm (signalWires.map Wire.span ++ (network.targets .series).map Placement.span) ∧
    Fills pieces low high
  /-- A series target is on the signal line. -/
  series : ∀ target ∈ network.targets .series,
    target.leftEnd.y = network.placement.leftEnd.y ∧
      target.rightEnd.y = network.placement.leftEnd.y
  /-- A shunt hangs straight down from the signal line. -/
  shunt : ∀ target ∈ network.targets .shunt,
    target.leftEnd.x = target.rightEnd.x ∧ low ≤ target.leftEnd.x ∧ target.leftEnd.x ≤ high

/-- On a line without extent there are no wires. -/
theorem RunsAt.eq_nil {height place : Rat} {wires : List (Wire Rat)} {pieces : List (Rat × Rat)}
    (runs : RunsAt height wires) (arePieces : ∀ wire ∈ wires, wire.span ∈ pieces)
    (fills : Fills pieces place place) : wires = [] := by
  by_contra notNone
  obtain ⟨wire, isWire⟩ := List.exists_mem_of_ne_nil wires notNone
  obtain ⟨-, -, ordered⟩ := runs wire isWire
  have isPiece := arePieces wire isWire
  have within := fills.covered (List.ne_nil_of_mem isPiece)
  obtain ⟨low, -⟩ := (within wire.start.x).mp ⟨_, isPiece, le_rfl, ordered.le⟩
  obtain ⟨-, high⟩ := (within wire.finish.x).mp ⟨_, isPiece, ordered.le, le_rfl⟩
  exact absurd (ordered.trans_le high) (not_lt.mpr low)

/-- A twoport whose lines have no extent has no other wires than leads. -/
theorem Layout.HasLines.wires_perm {network : Layout Rat} {rail place : Rat}
    (lines : network.HasLines rail place place) :
    network.placement.wires.Perm ((network.targets .shunt).flatMap
      (Placement.leads network.placement.leftEnd.y rail)) := by
  obtain ⟨railWires, signalWires, pieces, parted, onRail, railFills, onSignal, cover, fills⟩ :=
    lines.wires
  obtain rfl := onRail.eq_nil (fun wire isWire => List.mem_map_of_mem isWire) railFills
  obtain rfl := onSignal.eq_nil (fun wire isWire => cover.mem_iff.mpr
    (List.mem_append_left _ (List.mem_map_of_mem isWire))) fills
  exact parted

section

variable {settings : LayoutSettings Rat} {corner : Point Rat} {lines : TwoportLines Rat}
  {slots : List (LinkSlot Rat)} {network : Layout Rat} {kind : LinkKind}

theorem carries_place {slot : LinkSlot Rat} {part : Measure Rat} (lines : TwoportLines Rat)
    (straight : part.extent.IsStraight) (same : slot.target = part.extent)
    (width : slot.width = slotWidth settings (slot.kind, slot.target)) :
    slot.Carries corner lines
      (part.place settings (slot.targetFrame ⟨corner, false⟩ lines)).placement := by
  have left : part.extent.leftPort.x = 0 := straight.left
  rw [Measure.place_placement]
  constructor
  · intro isSeries
    have breadth : slot.width = part.extent.width := by rw [width, isSeries, same]; rfl
    rw [placement_leftEnd, placement_rightEnd, straight.right,
      LinkSlot.targetFrame_series isSeries, LinkSlot.targetFrame_series isSeries]
    constructor <;> apply Point.eq_of_coordinates <;>
      simp [Frame.point, Frame.offset, left, same, LinkSlot.finish, breadth]
  · intro isShunt
    rw [placement_leftEnd, placement_rightEnd, straight.right,
      LinkSlot.targetFrame_shunt isShunt, LinkSlot.targetFrame_shunt isShunt]
    constructor <;> apply Point.eq_of_coordinates <;>
      simp [Frame.point, Frame.offset, Point.transposed, left, same]

theorem LinkSlot.Carries.leads_eq {slot : LinkSlot Rat} {target : Placement Rat}
    (carries : slot.Carries corner lines target) :
    slot.leads ⟨corner, false⟩ lines =
      if slot.kind = .shunt then target.leads (corner.y + lines.signal) (corner.y + lines.rail)
      else [] := by
  cases isKind : slot.kind with
  | series => simp [LinkSlot.leads, isKind]
  | shunt =>
      obtain ⟨left, right⟩ := carries.shunt isKind
      simp only [LinkSlot.leads, isKind, if_true, Placement.leads, left, right,
        upright_connect]

theorem LinkSlot.Carries.spans_eq {slot : LinkSlot Rat} {target : Placement Rat}
    (carries : slot.Carries corner lines target) :
    slot.spans corner.x = if slot.kind = .series then [target.span] else [] := by
  cases isKind : slot.kind with
  | series =>
      obtain ⟨left, right⟩ := carries.series isKind
      simp only [LinkSlot.spans, isKind, if_true, Placement.span, left, right]
  | shunt => simp [LinkSlot.spans, isKind]

/-- What there is for the slots of one kind is there for their targets. -/
theorem flatMap_targets {β : Type} (ofSlot : LinkSlot Rat → List β)
    (ofTarget : Placement Rat → List β)
    (kinds : network.placement.circuit.linkKinds = slots.map LinkSlot.kind)
    (agree : List.Forall₂ (fun slot target =>
      ofSlot slot = if slot.kind = kind then ofTarget target.placement else [])
        slots network.children) :
    slots.flatMap ofSlot = (network.targets kind).flatMap ofTarget := by
  rw [Layout.targets, kinds]
  clear kinds
  generalize network.children = targets at agree
  induction agree with
  | nil => rfl
  | @cons slot target slots targets same _ ih =>
      by_cases isKind : slot.kind = kind <;> simp [same, isKind, ih]

theorem exists_slot_of_mem_targets {Holds : LinkSlot Rat → Placement Rat → Prop}
    (kinds : network.placement.circuit.linkKinds = slots.map LinkSlot.kind)
    (agree : List.Forall₂ (fun slot target => Holds slot target.placement) slots network.children)
    {target : Placement Rat} (isTarget : target ∈ network.targets kind) :
    ∃ slot ∈ slots, slot.kind = kind ∧ Holds slot target := by
  rw [Layout.targets, kinds] at isTarget
  clear kinds
  generalize network.children = targets at agree isTarget
  induction agree with
  | nil => cases isTarget
  | @cons slot first slots targets same _ ih =>
      rw [List.map_cons, List.map_cons, List.zip_cons_cons, List.filter_cons] at isTarget
      split at isTarget
      · next isKind =>
        rw [List.map_cons, List.mem_cons] at isTarget
        rcases isTarget with rfl | later
        · exact ⟨slot, List.mem_cons_self, eq_of_beq isKind, same⟩
        · obtain ⟨other, isOther, found⟩ := ih later
          exact ⟨other, List.mem_cons_of_mem slot isOther, found⟩
      · obtain ⟨other, isOther, found⟩ := ih isTarget
        exact ⟨other, List.mem_cons_of_mem slot isOther, found⟩

end

/-! ## Twoports -/

section

variable {settings : LayoutSettings Rat} {links : List (Link Circuit)}
  {parts : List (Measure Rat)} {first : LinkSlot Rat} {rest : List (LinkSlot Rat)}

theorem carries_network (levels : ∀ part ∈ parts, part.extent.IsLevel)
    (sameLength : parts.length = links.length) (corner : Point Rat) :
    List.Forall₂
      (fun slot target => slot.Carries corner (ladderLines settings links parts) target.placement)
      (ladderSlots settings links parts)
      ((Measure.network settings links parts).place settings ⟨corner, false⟩).children :=
  forall₂_network (fun _ part isPart same width =>
    carries_place _ (levels part isPart).straight same width) sameLength

theorem hasLines_network (nonnegative : settings.IsNonnegative)
    (levels : ∀ part ∈ parts, part.extent.IsLevel) (sameLength : parts.length = links.length)
    (row : ladderSlots settings links parts = first :: rest) (corner : Point Rat) :
    ((Measure.network settings links parts).place settings ⟨corner, false⟩).HasLines
      (corner.y + (ladderLines settings links parts).rail) (corner.x + first.stop)
      (corner.x + (rest.getLastD first).leave) := by
  let lines := ladderLines settings links parts
  let network := (Measure.network settings links parts).place settings ⟨corner, false⟩
  have isTwoport : (Measure.network settings links parts).extent.circuit = .twoport links := rfl
  have carries := @carries_network settings links parts levels sameLength corner
  have isPlaced : network.placement =
      placement settings (Measure.network settings links parts).extent
        (parts.map Measure.extent) ⟨corner, false⟩ := Measure.place_placement _
  have rail : network.placement.rail = some (corner.y + lines.rail) := by
    rw [isPlaced, Alignment.twoport_rail isTwoport rfl 0]
    rfl
  have signal : network.placement.leftEnd.y = corner.y + lines.signal := by
    rw [isPlaced, placement_leftEnd]
    rfl
  have kinds : network.placement.circuit.linkKinds = (first :: rest).map LinkSlot.kind := by
    rw [isPlaced, placement_circuit, isTwoport, ← row, ladderSlots_kinds sameLength]
    rfl
  have wires : network.placement.wires = slotWires ⟨corner, false⟩ lines true (first :: rest) := by
    rw [isPlaced, twoport_wires isTwoport, ← row]
    rfl
  have isRow : IsRow (first :: rest) := row ▸ ladderSlots_isRow nonnegative levels
  rw [row] at carries
  have leads := flatMap_targets _
    (Placement.leads (corner.y + lines.signal) (corner.y + lines.rail)) kinds
    (carries.imp fun _ _ target => target.leads_eq)
  have spans := flatMap_targets _ (fun target => [target.span]) kinds
    (carries.imp fun _ _ target => target.spans_eq)
  rw [← List.map_eq_flatMap] at spans
  obtain ⟨railWires, signalWires, pieces, parted, onRail, railSpans, onSignal, cover,
    signalSpans⟩ :=
    @isSection_slotWires corner lines first rest isRow.wide isRow.joined true
  rw [leads] at parted
  rw [spans] at cover
  refine ⟨rail, ⟨railWires, signalWires, pieces, ?_, onRail, railSpans.fills, ?_, cover,
    signalSpans.fills⟩, ?_, ?_⟩
  · rw [wires, signal]
    exact parted
  · rw [signal]
    exact onSignal
  · intro target isTarget
    obtain ⟨slot, -, isSeries, placed⟩ := exists_slot_of_mem_targets kinds carries isTarget
    obtain ⟨left, right⟩ := placed.series isSeries
    rw [left, right, signal]
    exact ⟨rfl, rfl⟩
  · intro target isTarget
    obtain ⟨slot, isSlot, isShunt, placed⟩ := exists_slot_of_mem_targets kinds carries isTarget
    obtain ⟨left, right⟩ := placed.shunt isShunt
    obtain ⟨low, high⟩ := stop_between isRow isSlot
    have stop : slot.stop = slot.middle := by rw [LinkSlot.stop, isShunt]
    rw [left, right, ← stop]
    exact ⟨rfl, add_le_add_right low _, add_le_add_right high _⟩

end

/-- The signal line and the rail of a twoport run without gaps from its first link to its last
one, and every shunt is joined to both by wires straight down. -/
theorem twoport_lines_are_continuous (symbols : SymbolLibrary Rat) (level : symbols.IsLevel)
    (settings : LayoutSettings Rat) (nonnegative : settings.IsNonnegative)
    (links : List (Link Circuit)) (notNone : links ≠ []) :
    ((Circuit.twoport links).WellFormed →
      (∀ element ∈ (Circuit.twoport links).elements, (symbols element.kind).isSome) →
        ∃ measure, (Circuit.twoport links).measure symbols settings = .ok measure) ∧
    ∀ measure, (Circuit.twoport links).measure symbols settings = .ok measure →
      ∃ layout first last rail, (Circuit.twoport links).layout symbols settings = .ok layout ∧
        (ladderSlots settings links measure.parts).head? = some first ∧
        (ladderSlots settings links measure.parts).getLast? = some last ∧
        (ladderSlots settings links measure.parts).map LinkSlot.kind = links.map Link.kind ∧
        List.Forall₂ (fun slot target => slot.Carries settings.origin
            (ladderLines settings links measure.parts) target.placement)
          (ladderSlots settings links measure.parts) layout.children ∧
        layout.HasLines rail (settings.originX + first.stop) (settings.originX + last.leave) ∧
        (links.map Link.kind = [.shunt] → layout.placement.wires.Perm
          ((layout.targets .shunt).flatMap
            (Placement.leads layout.placement.leftEnd.y rail))) := by
  refine ⟨fun wellFormed known => wellFormed.exists_measure known, fun measure measured => ?_⟩
  have levels := (measure_isLevel level nonnegative _ measured).2
  obtain ⟨-, isNetwork, sameLength⟩ := exists_parts_of_measure measured
  have placed := Circuit.layout_of_measure measured
  generalize measure.parts = parts at *
  subst isNetwork
  have kinds := @ladderSlots_kinds settings links parts sameLength
  obtain ⟨first, rest, row⟩ : ∃ first rest, ladderSlots settings links parts = first :: rest := by
    apply List.exists_cons_of_ne_nil
    intro none
    rw [none] at kinds
    exact notNone (List.map_eq_nil_iff.mp kinds.symm)
  have lines := @hasLines_network settings links parts first rest nonnegative levels sameLength row
    settings.origin
  refine ⟨_, first, rest.getLastD first, _, placed, by rw [row]; rfl,
    by rw [row, List.getLast?_cons, List.getLastD_eq_getLast?], kinds,
    carries_network levels sameLength settings.origin, lines, fun single => ?_⟩
  rw [← kinds, row, List.map_cons, List.cons.injEq, List.map_eq_nil_iff] at single
  obtain ⟨isShunt, rfl⟩ := single
  have stop : first.stop = first.leave := by rw [LinkSlot.stop, LinkSlot.leave, isShunt]
  rw [List.getLastD_nil, ← stop] at lines
  exact lines.wires_perm

/-- Two shunts with a series link between them: the lines end in the middle of both slots. -/
def dividerLinks : List (Link Circuit) :=
  [⟨.shunt, .element ⟨.voltageSource, some "1"⟩⟩, ⟨.series, .element ⟨.resistor, some "1"⟩⟩,
    ⟨.shunt, .element ⟨.resistor, some "2"⟩⟩]

theorem twoport_lines_are_continuous_divider :
    (SymbolLibrary.standard : SymbolLibrary Rat).IsLevel ∧
      (LayoutSettings.standard : LayoutSettings Rat).IsNonnegative ∧ dividerLinks ≠ [] ∧
      (∃ measure : Measure Rat,
        (Circuit.twoport dividerLinks).measure .standard .standard = .ok measure) ∧
      ∃ layout : Layout Rat,
        (Circuit.twoport dividerLinks).layout .standard .standard = .ok layout ∧
        layout.HasLines 155 40 220 := by
  have level := SymbolLibrary.standard_isLevel
  have nonnegative := LayoutSettings.standard_isNonnegative
  obtain ⟨layout, first, last, rail, placed, isFirst, isLast, -, -, lines, -⟩ :=
    (twoport_lines_are_continuous .standard level .standard nonnegative dividerLinks
      (List.cons_ne_nil _ _)).2 _ rfl
  refine ⟨level, nonnegative, List.cons_ne_nil _ _, ⟨_, rfl⟩, layout, placed, ?_⟩
  have low : (LayoutSettings.standard : LayoutSettings Rat).originX + first.stop = 40 := by
    cases isFirst
    decide +kernel
  have high : (LayoutSettings.standard : LayoutSettings Rat).originX + last.leave = 220 := by
    cases isLast
    decide +kernel
  have height : rail = 155 := by
    cases placed
    exact Option.some_inj.mp (lines.hasRail.symm.trans (by decide +kernel))
  rwa [low, high, height] at lines

end Schematic
