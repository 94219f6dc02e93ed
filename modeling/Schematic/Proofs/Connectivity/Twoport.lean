import Schematic.Proofs.Connectivity.Drawn
import Schematic.Proofs.Connectivity.Ladder

/-!
# Layouts of twoports draw their pictures

The targets of a twoport are placed in their slots, shunts with their axes
exchanged.  This file proves that every wire of the layout of a twoport, and
every port of an element in it, is in the picture of the twoport.
-/

namespace Schematic

open Schematic.Alignment (Side)

variable {settings : LayoutSettings Rat} {links : List (Link Circuit)}
  {parts : List (Measure Rat)} {frame : Frame Rat}

/-! ## Slots of targets -/

/-- The slot of a twoport at a position. -/
def rungSlot (settings : LayoutSettings Rat) (links : List (Link Circuit))
    (parts : List (Measure Rat)) (index : Nat) (kind : LinkKind) (target : Extent Rat) :
    LinkSlot Rat :=
  slotAt settings (rungs links parts) index (kind, target)

/-- The frame of a target in its slot. -/
def rungFrame (settings : LayoutSettings Rat) (links : List (Link Circuit))
    (parts : List (Measure Rat)) (frame : Frame Rat) (index : Nat) (kind : LinkKind)
    (target : Extent Rat) : Frame Rat :=
  (rungSlot settings links parts index kind target).targetFrame frame
    (ladderLines settings links parts)

/-- Where a point of a target is in the frame of the twoport. -/
def rungPoint (settings : LayoutSettings Rat) (links : List (Link Circuit))
    (parts : List (Measure Rat)) (index : Nat) (kind : LinkKind) (target : Extent Rat)
    (point : Point Rat) : Point Rat :=
  let slot := rungSlot settings links parts index kind target
  let lines := ladderLines settings links parts
  match kind with
  | .series => ⟨slot.start, lines.signal - target.leftPort.y⟩ + point
  | .shunt => ⟨slot.middle - target.leftPort.y, lines.shuntTop⟩ + point.transposed

theorem rungFrame_point (index : Nat) (kind : LinkKind) (target : Extent Rat) (point : Point Rat) :
    (rungFrame settings links parts frame index kind target).point point =
      frame.point (rungPoint settings links parts index kind target point) := by
  cases kind with
  | series => exact LinkSlot.targetFrame_series rfl point
  | shunt => exact LinkSlot.targetFrame_shunt rfl point

theorem place_network_child {index : Nat} {child : Layout Rat} :
    ((Measure.network settings links parts).place settings frame).children[index]? = some child ↔
      ∃ link part, links[index]? = some link ∧ parts[index]? = some part ∧
        part.place settings
          (rungFrame settings links parts frame index link.kind part.extent) = child := by
  have isTwoport : (Measure.network settings links parts).extent.circuit = .twoport links := rfl
  rw [Measure.place_child]
  simp only [partFrames_twoport isTwoport]
  change (∃ part partFrame, parts[index]? = some part ∧ (rungs links parts)[index]?.map _ =
    some partFrame ∧ _) ↔ _
  constructor
  · rintro ⟨part, partFrame, foundPart, foundFrame, rfl⟩
    obtain ⟨rung, foundRung, rfl⟩ := Option.map_eq_some_iff.mp foundFrame
    obtain ⟨link, other, foundLink, foundOther, rfl⟩ := rungs_getElem?.mp foundRung
    obtain rfl : other = part := Option.some_inj.mp (foundOther.symm.trans foundPart)
    exact ⟨link, other, foundLink, foundPart, rfl⟩
  · rintro ⟨link, part, foundLink, foundPart, rfl⟩
    exact ⟨part, _, foundPart, by
      rw [rungs_getElem?.mpr ⟨link, part, foundLink, foundPart, rfl⟩, Option.map_some]
      rfl, rfl⟩

/-- The layout of a twoport mirrors its circuit. -/
theorem mirrors_network (sameParts : parts.map Measure.circuit = links.map Link.target)
    (each : ∀ part ∈ parts, ∀ frame, Mirrors (part.place settings frame) part.circuit) :
    Mirrors ((Measure.network settings links parts).place settings frame) (.twoport links) := by
  apply mirrors_of_children
  · rw [Measure.place_placement, placement_circuit]
    rfl
  · intro index
    rw [Circuit.parts, ← sameParts, List.getElem?_map]
    have sameLength : parts.length = links.length := by
      simpa using congrArg List.length sameParts
    cases foundPart : parts[index]? with
    | none =>
        have noChild : ((Measure.network settings links parts).place settings
            frame).children[index]? = none := by
          rw [Option.eq_none_iff_forall_ne_some]
          intro child found
          obtain ⟨-, part, -, found, -⟩ := place_network_child.mp found
          rw [foundPart] at found
          cases found
        rw [noChild]
        exact .none
    | some part =>
        obtain ⟨inRange, -⟩ := List.getElem?_eq_some_iff.mp foundPart
        have foundLink : links[index]? = some links[index] :=
          List.getElem?_eq_getElem (sameLength ▸ inRange)
        rw [place_network_child.mpr ⟨_, part, foundLink, foundPart, rfl⟩]
        exact .some (each part (List.mem_of_getElem? foundPart) _)

/-! ## Wires of slots -/

namespace LinkSlot

/-- The edges and the middle of a slot. -/
def IsStop (slot : LinkSlot Rat) (x : Rat) : Prop :=
  x = slot.start ∨ x = slot.middle ∨ x = slot.finish

/-- Where a link meets the signal line: a series target at its start, and a shunt in
the middle of its slot. -/
def stop (slot : LinkSlot Rat) : Rat :=
  match slot.kind with
  | .series => slot.start
  | .shunt => slot.middle

end LinkSlot

/-- The wires in a slot of a twoport, in its own frame; those that lead to the rail
are grounded. -/
inductive RungWire (lines : TwoportLines Rat) (slot : LinkSlot Rat) :
    (grounded : Bool) → Wire Rat → Prop where
  | upper : slot.kind = .shunt →
      RungWire lines slot false ⟨⟨slot.middle, lines.signal⟩, ⟨slot.middle, lines.shuntTop⟩⟩
  | lower : slot.kind = .shunt →
      RungWire lines slot true
        ⟨⟨slot.middle, lines.shuntTop + slot.target.width⟩, ⟨slot.middle, lines.rail⟩⟩
  | signal {first second : Rat} : slot.kind = .shunt → slot.IsStop first → slot.IsStop second →
      (first = slot.stop ∨ second = slot.stop) →
      RungWire lines slot false ⟨⟨first, lines.signal⟩, ⟨second, lines.signal⟩⟩
  | rail {first second : Rat} : slot.IsStop first → slot.IsStop second →
      (first = slot.stop ∨ second = slot.stop) →
      RungWire lines slot true ⟨⟨first, lines.rail⟩, ⟨second, lines.rail⟩⟩

/-- The node that a wire in a slot belongs to. -/
def rungTerminal (links : List (Link Circuit)) (index : Nat) (grounded : Bool) : Terminal :=
  if grounded then .rail else .signal (Circuit.signalBefore links index)

theorem LinkSlot.exists_rungWire {slot : LinkSlot Rat} {lines : TwoportLines Rat}
    {isFirst isLast : Bool} {wire : Wire Rat}
    (isWire : wire ∈ slot.wires frame lines isFirst isLast) :
    ∃ grounded inner, RungWire lines slot grounded inner ∧ wire = frame.image inner := by
  have inPair : ∀ {first second : Rat}, slot.kind = .shunt → slot.IsStop first →
      slot.IsStop second → (first = slot.stop ∨ second = slot.stop) →
      wire ∈ pair frame lines first second →
        ∃ grounded inner, RungWire lines slot grounded inner ∧ wire = frame.image inner := by
    intro first second isShunt isFirst isSecond meets isPair
    rcases List.mem_append.mp isPair with signal | rail
    · exact ⟨_, _, .signal isShunt isFirst isSecond meets, (frame.mem_connect.mp signal).2⟩
    · exact ⟨_, _, .rail isFirst isSecond meets, (frame.mem_connect.mp rail).2⟩
  cases kind : slot.kind with
  | series =>
      rw [wires, kind] at isWire
      exact ⟨_, _, .rail (.inl rfl) (.inr (.inr rfl)) (.inl (by rw [stop, kind])),
        (frame.mem_connect.mp isWire).2⟩
  | shunt =>
      have atMiddle : slot.middle = slot.stop := by rw [stop, kind]
      simp only [wires, kind, List.mem_append] at isWire
      rcases isWire with ((upper | lower) | left) | right
      · exact ⟨_, _, .upper kind, (frame.mem_connect.mp upper).2⟩
      · exact ⟨_, _, .lower kind, (frame.mem_connect.mp lower).2⟩
      · split at left
        · cases left
        · exact inPair kind (.inl rfl) (.inr (.inl rfl)) (.inr atMiddle) left
      · split at right
        · cases right
        · exact inPair kind (.inr (.inl rfl)) (.inr (.inr rfl)) (.inl atMiddle) right

/-! ## Marks in slots -/

section

open Picture

variable {Label : Type} {labels : Terminal → Label} {index : Nat} {link : Link Circuit}
  {part : Measure Rat} {wire : Wire Rat} {label : Label}

/-- What is in the picture of a slot is in the picture of the twoport. -/
theorem mem_ladder_slot (foundLink : links[index]? = some link)
    (foundPart : parts[index]? = some part)
    (isMark : slotPicture settings (ladderLines settings links parts)
      (link.kind, part.extent) (labels (.signal (Circuit.signalBefore links index))) (labels .rail)
      (Marks settings part ((portLabels labels).within index)) wire label) :
    ladderPicture settings links parts labels
      (wire.shifted ⟨(rungSlot settings links parts index link.kind part.extent).start, 0⟩)
      label := by
  have found := rungs_getElem?.mpr ⟨link, part, foundLink, foundPart, rfl⟩
  refine .inr ⟨index, ?_, wire, ⟨link, part, foundLink, foundPart, isMark⟩, rfl⟩
  rw [List.length_map]
  exact (List.getElem?_eq_some_iff.mp found).1

/-- The marks of a target are in the picture of the twoport, where the target is
placed. -/
theorem mem_ladder_target (roomy : part.extent.IsRoomy) (foundLink : links[index]? = some link)
    (foundPart : parts[index]? = some part)
    (isMark : Marks settings part ((portLabels labels).within index) wire label) :
    ladderPicture settings links parts labels
      ⟨rungPoint settings links parts index link.kind part.extent wire.start,
        rungPoint settings links parts index link.kind part.extent wire.finish⟩ label := by
  obtain ⟨kind, target⟩ := link
  cases kind with
  | series =>
      have inLadder := @mem_ladder_slot settings links parts _ labels index _ part _ label
        foundLink foundPart ⟨wire, isMark, rfl⟩
      rw [Wire.shifted_shifted, Point.mk_add_mk, add_zero, zero_add] at inLadder
      simpa [rungPoint, roomy.leftPort, Wire.shifted] using inLadder
  | shunt =>
      have inLadder := @mem_ladder_slot settings links parts _ labels index _ part _ label
        foundLink foundPart (.inr (.inr ⟨wire, isMark, rfl⟩))
      rw [Wire.shifted_shifted, Point.mk_add_mk, zero_add, ← add_sub_assoc] at inLadder
      simpa [rungPoint, roomy.leftPort, Wire.shifted, Wire.transposed, LinkSlot.middle, rungSlot,
        slotAt] using inLadder

/-- A wire of the twoport that is in the picture of a slot. -/
theorem mem_ladder_local (foundLink : links[index]? = some link)
    (foundPart : parts[index]? = some part)
    (isMark : slotPicture settings (ladderLines settings links parts)
      (link.kind, part.extent) (labels (.signal (Circuit.signalBefore links index))) (labels .rail)
      (Marks settings part ((portLabels labels).within index))
      (wire.shifted ⟨-(rungSlot settings links parts index link.kind part.extent).start, 0⟩)
      label) : ladderPicture settings links parts labels wire label := by
  have inLadder := mem_ladder_slot foundLink foundPart isMark
  rw [Wire.shifted_shifted] at inLadder
  rwa [Point.mk_add_mk, add_neg_cancel, add_zero, Wire.shifted_zero] at inLadder

/-- A wire between stops of the slot of a shunt, not below its upper port. -/
theorem mem_ladder_upper (roomy : part.extent.IsRoomy) {target : Circuit}
    (foundLink : links[index]? = some ⟨.shunt, target⟩)
    (foundPart : parts[index]? = some part) {slot : LinkSlot Rat}
    (isSlot : rungSlot settings links parts index .shunt part.extent = slot)
    (within : ∀ point ∈ wire.ends, slot.IsStop point.x ∧
      point.y ≤ (ladderLines settings links parts).shuntTop) :
    ladderPicture settings links parts labels wire
      (labels (.signal (Circuit.signalBefore links index))) := by
  refine mem_ladder_local foundLink foundPart (.inl ⟨rfl, fun point isEnd => ?_⟩)
  obtain ⟨stop, isStop, rfl⟩ := Wire.mem_ends_shifted.mp isEnd
  obtain ⟨place, high⟩ := within stop isStop
  have wide := (@le_slotWidth settings .shunt _ roomy).1
  have sameWidth : slot.width = slotWidth settings (.shunt, part.extent) := by
    rw [← isSlot]
    rfl
  rw [LinkSlot.IsStop, LinkSlot.middle, LinkSlot.finish, Scalar.half_eq] at place
  simp only [isSlot, Point.add_x, Point.add_y, zero_add, ← sameWidth] at wide ⊢
  refine ⟨?_, ?_, high⟩ <;> rcases place with same | same | same <;> linarith

/-- The wire from the lower port of a shunt to the rail. -/
theorem mem_ladder_lower (nonnegative : settings.IsNonnegative) {target : Circuit}
    (foundLink : links[index]? = some ⟨.shunt, target⟩)
    (foundPart : parts[index]? = some part) {slot : LinkSlot Rat}
    (isSlot : rungSlot settings links parts index .shunt part.extent = slot) :
    ladderPicture settings links parts labels
      ⟨⟨slot.middle, (ladderLines settings links parts).shuntTop + part.extent.width⟩,
        ⟨slot.middle, (ladderLines settings links parts).rail⟩⟩ (labels .rail) := by
  have isRung := List.mem_of_getElem? (rungs_getElem?.mpr ⟨_, part, foundLink, foundPart, rfl⟩)
  refine mem_ladder_local foundLink foundPart (.inr (.inl ⟨rfl, fun point isEnd => ?_⟩))
  obtain ⟨stop, isStop, rfl⟩ := Wire.mem_ends_shifted.mp isEnd
  have sameWidth : slot.width = slotWidth settings (.shunt, part.extent) := by
    rw [← isSlot]
    rfl
  have above := shunt_above_rail nonnegative isRung
  simp only [isSlot, Point.add_x, Point.add_y, zero_add, ← sameWidth]
  simp only [Wire.ends, List.mem_cons, List.not_mem_nil, or_false] at isStop
  rcases isStop with rfl | rfl <;> simp only [LinkSlot.middle, Scalar.half_eq]
  · exact ⟨by linarith, le_rfl⟩
  · exact ⟨by linarith, above⟩

/-- A wire along the rail. -/
theorem mem_ladder_rail (first second : Rat) :
    ladderPicture settings links parts labels
      ⟨⟨first, (ladderLines settings links parts).rail⟩,
        ⟨second, (ladderLines settings links parts).rail⟩⟩ (labels .rail) :=
  .inl ⟨rfl, by simp [Wire.ends]⟩

/-- The wires of a slot are in the picture of the twoport. -/
theorem mem_ladder_wire (nonnegative : settings.IsNonnegative) (roomy : part.extent.IsRoomy)
    (foundLink : links[index]? = some link) (foundPart : parts[index]? = some part)
    {grounded : Bool}
    (isWire : RungWire (ladderLines settings links parts)
      (rungSlot settings links parts index link.kind part.extent) grounded wire) :
    ladderPicture settings links parts labels wire
      (labels (rungTerminal links index grounded)) := by
  obtain ⟨kind, target⟩ := link
  cases isWire with
  | upper isShunt =>
      obtain rfl : kind = .shunt := isShunt
      refine mem_ladder_upper roomy foundLink foundPart rfl ?_
      simp only [Wire.ends, List.mem_cons, List.not_mem_nil, or_false, forall_eq_or_imp, forall_eq]
      exact ⟨⟨.inr (.inl rfl), signal_le_shuntTop nonnegative⟩, .inr (.inl rfl), le_rfl⟩
  | lower isShunt =>
      obtain rfl : kind = .shunt := isShunt
      exact mem_ladder_lower nonnegative foundLink foundPart rfl
  | signal isShunt isFirst isSecond _ =>
      obtain rfl : kind = .shunt := isShunt
      refine mem_ladder_upper roomy foundLink foundPart rfl ?_
      simpa [Wire.ends, @signal_le_shuntTop settings (rungs links parts) nonnegative] using
        ⟨isFirst, isSecond⟩
  | rail _ _ _ => exact mem_ladder_rail _ _

variable {nonnegative : settings.IsNonnegative} (roomy : ∀ part ∈ parts, part.extent.IsRoomy)
  (frame : Frame Rat) (labels : Terminal → Label)

include nonnegative roomy in
/-- Every wire of the layout of a twoport is in its picture. -/
theorem wiresIn_network
    (each : ∀ part ∈ parts, ∀ frame (labels : PortLabels Label),
      WiresIn (part.place settings frame) frame (Marks settings part labels)) :
    WiresIn ((Measure.network settings links parts).place settings frame) frame
      (ladderPicture settings links parts labels) := by
  have isTwoport : (Measure.network settings links parts).extent.circuit = .twoport links := rfl
  intro node isNode wire isWire
  rcases Layout.mem_nodes.mp isNode with rfl | ⟨child, isChild, inChild⟩
  · rw [Measure.place_placement, twoport_wires isTwoport, mem_slotWires] at isWire
    obtain ⟨index, slot, foundSlot, isWire⟩ := isWire
    rw [linkSlots_getElem?_zero, Option.map_eq_some_iff] at foundSlot
    obtain ⟨rung, foundRung, rfl⟩ := foundSlot
    obtain ⟨link, part, foundLink, foundPart, rfl⟩ := rungs_getElem?.mp foundRung
    obtain ⟨grounded, inner, isRungWire, same⟩ := LinkSlot.exists_rungWire isWire
    exact ⟨inner, _, mem_ladder_wire nonnegative (roomy part (List.mem_of_getElem? foundPart))
      foundLink foundPart isRungWire, same⟩
  · obtain ⟨index, found⟩ := List.mem_iff_getElem?.mp isChild
    obtain ⟨link, part, foundLink, foundPart, rfl⟩ := place_network_child.mp found
    have isPart := List.mem_of_getElem? foundPart
    obtain ⟨inner, label, isMark, rfl⟩ := each part isPart _ ((portLabels labels).within index)
      node inChild wire isWire
    refine ⟨_, label, mem_ladder_target (roomy part isPart) foundLink foundPart isMark, ?_⟩
    simp only [Frame.image, Frame.wire, rungFrame_point]

include roomy in
/-- Every port of an element in the layout of a twoport is in its picture. -/
theorem portsIn_network
    (each : ∀ part ∈ parts, ∀ frame (labels : PortLabels Label),
      PortsIn (part.place settings frame) frame labels (Marks settings part labels)) :
    PortsIn ((Measure.network settings links parts).place settings frame) frame
      (portLabels labels) (ladderPicture settings links parts labels) := by
  intro path node element side found isElement
  cases path with
  | nil =>
      cases found
      rw [Measure.place_placement, placement_circuit] at isElement
      cases isElement
  | cons index path =>
      obtain ⟨child, foundChild, found⟩ := Option.bind_eq_some_iff.mp found
      obtain ⟨link, part, foundLink, foundPart, rfl⟩ := place_network_child.mp foundChild
      have isPart := List.mem_of_getElem? foundPart
      obtain ⟨point, isMark, same⟩ := each part isPart _ ((portLabels labels).within index) path
        node element side found isElement
      rw [rungFrame_point] at same
      exact ⟨_, mem_ladder_target (roomy part isPart) foundLink foundPart isMark, same⟩

end

end Schematic
