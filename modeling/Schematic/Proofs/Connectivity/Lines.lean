import Schematic.Proofs.Connectivity.Twoport
import Schematic.Proofs.Connectivity.Wired

/-!
# The lines of a twoport

The slots of a twoport share a signal line and a rail.  A series target
interrupts the signal line, a shunt does not, and nothing interrupts the rail.
This file proves that the layout of a twoport connects the terminals that its
circuit ties, with points on the lines for their nodes.
-/

namespace Schematic

open Schematic.Alignment (Side)

variable {settings : LayoutSettings Rat} {links : List (Link Circuit)}
  {parts : List (Measure Rat)} {frame : Frame Rat} {index : Nat} {link : Link Circuit}
  {part : Measure Rat} {target : Circuit}

/-- The layout of a twoport. -/
abbrev networkLayout (settings : LayoutSettings Rat) (links : List (Link Circuit))
    (parts : List (Measure Rat)) (frame : Frame Rat) : Layout Rat :=
  (Measure.network settings links parts).place settings frame

/-! ## Stops on the lines -/

/-- Where slots start. -/
def slotStart (settings : LayoutSettings Rat) (links : List (Link Circuit))
    (parts : List (Measure Rat)) (index : Nat) : Rat :=
  startOf ((rungs links parts).map (slotWidth settings)) index

/-- Where a link meets the signal line: a series target at its start, and a shunt
in the middle of its slot. -/
def stopAt (settings : LayoutSettings Rat) (links : List (Link Circuit))
    (parts : List (Measure Rat)) (index : Nat) : Rat :=
  match (rungs links parts)[index]? with
  | some (.shunt, target) => (rungSlot settings links parts index .shunt target).middle
  | _ => slotStart settings links parts index

theorem stopAt_series (foundLink : links[index]? = some ⟨.series, target⟩) :
    stopAt settings links parts index = slotStart settings links parts index := by
  unfold stopAt
  split
  · next found =>
    obtain ⟨link, part, found, -, same⟩ := rungs_getElem?.mp found
    rw [foundLink] at found
    cases found
    cases same
  · rfl

theorem stopAt_shunt (foundLink : links[index]? = some ⟨.shunt, target⟩)
    (foundPart : parts[index]? = some part) :
    stopAt settings links parts index =
      (rungSlot settings links parts index .shunt part.extent).middle := by
  rw [stopAt, rungs_getElem?.mpr ⟨_, part, foundLink, foundPart, rfl⟩]

theorem rungSlot_stop (foundLink : links[index]? = some link)
    (foundPart : parts[index]? = some part) :
    (rungSlot settings links parts index link.kind part.extent).stop =
      stopAt settings links parts index := by
  obtain ⟨kind, target⟩ := link
  cases kind with
  | series => rw [stopAt_series foundLink]; rfl
  | shunt => rw [stopAt_shunt foundLink foundPart]; rfl

/-- A slot ends where the next one starts. -/
theorem rungSlot_finish (foundLink : links[index]? = some link)
    (foundPart : parts[index]? = some part) :
    (rungSlot settings links parts index link.kind part.extent).finish =
      slotStart settings links parts (index + 1) := by
  have found : ((rungs links parts).map (slotWidth settings))[index]? =
      some (slotWidth settings (link.kind, part.extent)) := by
    rw [List.getElem?_map, rungs_getElem?.mpr ⟨_, part, foundLink, foundPart, rfl⟩, Option.map_some]
  rw [slotStart, startOf_succ found]
  rfl

theorem length_linkSlots (x : Rat) (rungs : List (LinkKind × Extent Rat)) :
    (linkSlots settings x rungs).length = rungs.length := by
  induction rungs generalizing x with
  | nil => rfl
  | cons rung rest ih => simp [linkSlots, ih]

/-! ## Wires along the lines -/

section

variable (sameLength : parts.length = links.length)

include sameLength in
theorem mem_network_of_slot (foundLink : links[index]? = some link)
    (foundPart : parts[index]? = some part) {wire : Wire Rat}
    (isWire : wire ∈ (rungSlot settings links parts index link.kind part.extent).wires frame
      (ladderLines settings links parts) (index == 0) (index + 1 == links.length)) :
    wire ∈ (networkLayout settings links parts frame).allWires := by
  have isTwoport : (Measure.network settings links parts).extent.circuit = .twoport links := rfl
  have found := rungs_getElem?.mpr ⟨link, part, foundLink, foundPart, rfl⟩
  apply Layout.mem_allWires_of_own
  rw [Measure.place_placement, twoport_wires isTwoport]
  change wire ∈ slotWires frame (ladderLines settings links parts) true
    (linkSlots settings Scalar.zero (rungs links parts))
  refine mem_slotWires.mpr ⟨index, rungSlot settings links parts index link.kind part.extent,
    ?_, ?_⟩
  · rw [linkSlots_getElem?_zero, found, Option.map_some]
    rfl
  · have slotCount :
        (linkSlots settings Scalar.zero (rungs links parts)).length = links.length := by
      simp [length_linkSlots, rungs, sameLength]
    rwa [slotCount, Bool.true_and]

/-- The signal line or the rail. -/
def IsLine (settings : LayoutSettings Rat) (links : List (Link Circuit))
    (parts : List (Measure Rat)) (height : Rat) : Prop :=
  height = (ladderLines settings links parts).signal ∨
    height = (ladderLines settings links parts).rail

theorem mem_pair {first second height : Rat} (isLine : IsLine settings links parts height)
    {wire : Wire Rat} (isWire : wire ∈ frame.connect ⟨first, height⟩ ⟨second, height⟩) :
    wire ∈ LinkSlot.pair frame (ladderLines settings links parts) first second := by
  rw [LinkSlot.pair, List.mem_append]
  rcases isLine with rfl | rfl
  · exact .inl isWire
  · exact .inr isWire

variable {height : Rat}

include sameLength in
/-- A link is connected to the links before it. -/
theorem wired_enter (isLine : IsLine settings links parts height) (inRange : index < links.length)
    (notFirst : 0 < index) :
    Wired (networkLayout settings links parts frame).allWires
      (frame.point ⟨slotStart settings links parts index, height⟩)
      (frame.point ⟨stopAt settings links parts index, height⟩) := by
  have foundLink := List.getElem?_eq_getElem inRange
  have foundPart := List.getElem?_eq_getElem (sameLength ▸ inRange)
  generalize links[index] = link at foundLink
  obtain ⟨kind, target⟩ := link
  cases kind with
  | series => rw [stopAt_series foundLink]; exact .refl _
  | shunt =>
      rw [stopAt_shunt foundLink foundPart]
      refine Wired.of_connect fun wire isWire => ?_
      refine mem_network_of_slot sameLength foundLink foundPart ?_
      have notFirst : (index == 0) = false := by simpa using notFirst.ne'
      simp only [LinkSlot.wires, rungSlot, slotAt, notFirst, List.mem_append]
      exact .inl (.inr (mem_pair isLine isWire))

include sameLength in
/-- A shunt is connected to the links after it. -/
theorem wired_leave (isLine : IsLine settings links parts height)
    (foundLink : links[index]? = some ⟨.shunt, target⟩) (notLast : index + 1 < links.length) :
    Wired (networkLayout settings links parts frame).allWires
      (frame.point ⟨stopAt settings links parts index, height⟩)
      (frame.point ⟨slotStart settings links parts (index + 1), height⟩) := by
  have foundPart := List.getElem?_eq_getElem (l := parts) (i := index) (by omega)
  rw [stopAt_shunt foundLink foundPart, ← rungSlot_finish foundLink foundPart]
  refine Wired.of_connect fun wire isWire => ?_
  refine mem_network_of_slot sameLength foundLink foundPart ?_
  have notLast : (index + 1 == links.length) = false := by simpa using notLast.ne
  simp only [LinkSlot.wires, rungSlot, slotAt, notLast, List.mem_append]
  exact .inr (mem_pair isLine isWire)

include sameLength in
/-- The rail passes below every link. -/
theorem wired_rail (inRange : index < links.length) :
    Wired (networkLayout settings links parts frame).allWires
      (frame.point ⟨stopAt settings links parts 0,
        (ladderLines settings links parts).rail⟩)
      (frame.point ⟨stopAt settings links parts index,
        (ladderLines settings links parts).rail⟩) := by
  induction index with
  | zero => exact .refl _
  | succ index ih =>
      have foundLink := List.getElem?_eq_getElem (l := links) (i := index) (by omega)
      have foundPart := List.getElem?_eq_getElem (l := parts) (i := index) (by omega)
      refine (ih (by omega)).trans (Wired.trans ?_
        (wired_enter sameLength (.inr rfl) inRange (Nat.succ_pos index)))
      generalize links[index] = link at foundLink
      obtain ⟨kind, target⟩ := link
      cases kind with
      | series =>
          rw [stopAt_series foundLink, ← rungSlot_finish foundLink foundPart]
          refine Wired.of_connect fun wire isWire => ?_
          exact mem_network_of_slot sameLength foundLink foundPart isWire
      | shunt => exact wired_leave sameLength (.inr rfl) foundLink inRange

theorem signalBefore_mono {low high : Nat} (ordered : low ≤ high) :
    Circuit.signalBefore links low ≤ Circuit.signalBefore links high :=
  (List.take_sublist_take_left ordered).countP_le

include sameLength in
/-- Shunts between two links do not interrupt the signal line. -/
theorem wired_signal {low high : Nat} (ordered : low ≤ high) (inRange : high < links.length)
    (sameNode : Circuit.signalBefore links low = Circuit.signalBefore links high) :
    Wired (networkLayout settings links parts frame).allWires
      (frame.point ⟨stopAt settings links parts low,
        (ladderLines settings links parts).signal⟩)
      (frame.point ⟨stopAt settings links parts high,
        (ladderLines settings links parts).signal⟩) := by
  induction high, ordered using Nat.le_induction with
  | base => exact .refl _
  | succ high ordered ih =>
      have foundLink := List.getElem?_eq_getElem (l := links) (i := high) (by omega)
      have before := @signalBefore_mono links _ _ ordered
      generalize links[high] = link at foundLink
      obtain ⟨kind, target⟩ := link
      cases kind with
      | series =>
          rw [signalBefore_series foundLink] at sameNode
          omega
      | shunt =>
          rw [signalBefore_shunt foundLink] at sameNode
          exact ((ih (by omega) sameNode).trans
            (wired_leave sameLength (.inl rfl) foundLink inRange)).trans
              (wired_enter sameLength (.inl rfl) inRange (Nat.succ_pos high))

/-! ## Ports of targets -/

theorem network_portAt (foundLink : links[index]? = some link)
    (foundPart : parts[index]? = some part) (side : Side) :
    (networkLayout settings links parts frame).portAt [index] side = frame.point
      (rungPoint settings links parts index link.kind part.extent (part.extent.port side)) := by
  have foundChild := (@place_network_child settings links parts frame index _).mpr
    ⟨link, part, foundLink, foundPart, rfl⟩
  rw [Layout.portAt_cons foundChild, place_portAt_nil, rungFrame_point]

include sameLength in
/-- A target is connected to the signal line on its left side. -/
theorem wired_targetStart (roomy : part.extent.IsRoomy) (foundLink : links[index]? = some link)
    (foundPart : parts[index]? = some part) :
    Wired (networkLayout settings links parts frame).allWires
      ((networkLayout settings links parts frame).portAt [index] .left)
      (frame.point ⟨stopAt settings links parts index,
        (ladderLines settings links parts).signal⟩) := by
  rw [network_portAt foundLink foundPart]
  obtain ⟨kind, target⟩ := link
  cases kind with
  | series =>
      apply Wired.of_eq
      rw [stopAt_series foundLink, rungPoint, roomy.port, roomy.leftPort]
      congr 1
      apply Point.eq_of_coordinates <;> simp [rungSlot, slotAt, slotStart]
  | shunt =>
      have lead : Wired (networkLayout settings links parts frame).allWires
          (frame.point ⟨(rungSlot settings links parts index .shunt part.extent).middle,
            (ladderLines settings links parts).signal⟩)
          (frame.point ⟨(rungSlot settings links parts index .shunt part.extent).middle,
            (ladderLines settings links parts).shuntTop⟩) := by
        refine Wired.of_connect fun wire isWire => ?_
        refine mem_network_of_slot sameLength foundLink foundPart ?_
        simp only [LinkSlot.wires, rungSlot, slotAt, List.mem_append]
        exact .inl (.inl (.inl isWire))
      rw [stopAt_shunt foundLink foundPart]
      refine Wired.trans (.of_eq (congrArg frame.point ?_)) lead.symm
      rw [rungPoint, roomy.port, roomy.leftPort]
      apply Point.eq_of_coordinates <;> simp [Point.transposed]

/-- A series target is connected to the signal line on its right side. -/
theorem network_portAt_seriesEnd (roomy : part.extent.IsRoomy)
    (foundLink : links[index]? = some ⟨.series, target⟩) (foundPart : parts[index]? = some part) :
    (networkLayout settings links parts frame).portAt [index] .right =
      frame.point ⟨slotStart settings links parts (index + 1),
        (ladderLines settings links parts).signal⟩ := by
  rw [network_portAt foundLink foundPart, ← rungSlot_finish foundLink foundPart, rungPoint,
    roomy.port, roomy.leftPort]
  congr 1
  apply Point.eq_of_coordinates <;> simp [rungSlot, slotAt, LinkSlot.finish, slotWidth]

include sameLength in
/-- A shunt is connected to the rail. -/
theorem wired_shuntEnd (roomy : part.extent.IsRoomy)
    (foundLink : links[index]? = some ⟨.shunt, target⟩) (foundPart : parts[index]? = some part) :
    Wired (networkLayout settings links parts frame).allWires
      ((networkLayout settings links parts frame).portAt [index] .right)
      (frame.point ⟨stopAt settings links parts index,
        (ladderLines settings links parts).rail⟩) := by
  have lead : Wired (networkLayout settings links parts frame).allWires
      (frame.point ⟨(rungSlot settings links parts index .shunt part.extent).middle,
        (ladderLines settings links parts).shuntTop + part.extent.width⟩)
      (frame.point ⟨(rungSlot settings links parts index .shunt part.extent).middle,
        (ladderLines settings links parts).rail⟩) := by
    refine Wired.of_connect fun wire isWire => ?_
    refine mem_network_of_slot sameLength foundLink foundPart ?_
    simp only [LinkSlot.wires, rungSlot, slotAt, List.mem_append]
    exact .inl (.inl (.inr isWire))
  rw [network_portAt foundLink foundPart, stopAt_shunt foundLink foundPart]
  refine Wired.trans (.of_eq (congrArg frame.point ?_)) lead
  rw [rungPoint, roomy.port, roomy.leftPort]
  apply Point.eq_of_coordinates <;> simp [Point.transposed]

end

/-! ## All terminals -/

/-- A point for a node of the signal line: where the first link at this node
starts, or the end of the line if there is none. -/
def signalSpot (settings : LayoutSettings Rat) (links : List (Link Circuit))
    (parts : List (Measure Rat)) (position : Nat) : Rat :=
  match (List.range links.length).find? fun index =>
      Circuit.signalBefore links index == position with
  | some index => stopAt settings links parts index
  | none => slotStart settings links parts links.length

/-- A point for each terminal of a twoport. -/
def terminalPoint (settings : LayoutSettings Rat) (links : List (Link Circuit))
    (parts : List (Measure Rat)) (frame : Frame Rat) : Terminal → Point Rat
  | .port path side => (networkLayout settings links parts frame).portAt path side
  | .signal position => frame.point ⟨signalSpot settings links parts position,
      (ladderLines settings links parts).signal⟩
  | .rail => frame.point ⟨stopAt settings links parts 0,
      (ladderLines settings links parts).rail⟩

section

variable (sameParts : parts.map Measure.circuit = links.map Link.target)
  (roomy : ∀ part ∈ parts, part.extent.IsRoomy)

theorem wired_signalSpot (sameLength : parts.length = links.length)
    (inRange : index < links.length) :
    Wired (networkLayout settings links parts frame).allWires
      (frame.point ⟨stopAt settings links parts index,
        (ladderLines settings links parts).signal⟩)
      (terminalPoint settings links parts frame
        (.signal (Circuit.signalBefore links index))) := by
  rw [terminalPoint, signalSpot]
  split
  · next first found =>
    have firstRange := List.mem_range.mp (List.mem_of_find?_eq_some found)
    have sameNode := List.find?_some found
    rw [beq_iff_eq] at sameNode
    rcases Nat.le_total first index with before | after
    · exact (wired_signal sameLength before inRange sameNode).symm
    · exact wired_signal sameLength after firstRange sameNode.symm
  · next none =>
    rw [List.find?_eq_none] at none
    exact absurd (beq_self_eq_true _) (none index (List.mem_range.mpr inRange))

/-- After a series target comes the next node of the signal line. -/
theorem wired_seriesEnd (sameLength : parts.length = links.length)
    (partRoomy : part.extent.IsRoomy) (foundLink : links[index]? = some ⟨.series, target⟩)
    (foundPart : parts[index]? = some part) :
    Wired (networkLayout settings links parts frame).allWires
      ((networkLayout settings links parts frame).portAt [index] .right)
      (terminalPoint settings links parts frame
        (.signal (Circuit.signalBefore links index + 1))) := by
  have inRange := (List.getElem?_eq_some_iff.mp foundLink).1
  rw [network_portAt_seriesEnd partRoomy foundLink foundPart, ← signalBefore_series foundLink]
  rcases Nat.lt_or_ge (index + 1) links.length with notLast | isLast
  · exact (wired_enter sameLength (.inl rfl) notLast (Nat.succ_pos index)).trans
      (wired_signalSpot sameLength notLast)
  · apply Wired.of_eq
    have noLink : ((List.range links.length).find? fun other =>
        Circuit.signalBefore links other == Circuit.signalBefore links (index + 1)) = none := by
      rw [List.find?_eq_none]
      intro other otherRange sameNode
      rw [beq_iff_eq, signalBefore_series foundLink] at sameNode
      have otherBefore := List.mem_range.mp otherRange
      have before := @signalBefore_mono links other index (by omega)
      omega
    have last : index + 1 = links.length := by omega
    rw [terminalPoint, signalSpot, noLink, last]

include sameParts roomy in
/-- The layout of a twoport connects all the terminals that its circuit ties. -/
theorem network_connects
    (each : ∀ part ∈ parts, ∀ frame, (part.place settings frame).Connects part.circuit)
    {first second : Terminal} (tie : (Circuit.twoport links).Tie first second) :
    Wired (networkLayout settings links parts frame).allWires
      (terminalPoint settings links parts frame first)
      (terminalPoint settings links parts frame second) := by
  have sameLength : parts.length = links.length := by
    simpa using congrArg List.length sameParts
  have exists_part : ∀ {index : Nat} {link : Link Circuit}, links[index]? = some link →
      ∃ part, parts[index]? = some part ∧ part.circuit = link.target ∧ part.extent.IsRoomy := by
    intro index link foundLink
    have inRange := (List.getElem?_eq_some_iff.mp foundLink).1
    have foundPart := List.getElem?_eq_getElem (sameLength.symm ▸ inRange)
    have sameCircuit := congrArg (fun circuits => circuits[index]?) sameParts
    simp only [List.getElem?_map, foundLink, foundPart, Option.map_some,
      Option.some_inj] at sameCircuit
    exact ⟨_, foundPart, sameCircuit, roomy _ (List.mem_of_getElem? foundPart)⟩
  cases tie with
  | linkStart inRange =>
      have foundLink := List.getElem?_eq_getElem inRange
      obtain ⟨part, foundPart, -, partRoomy⟩ := exists_part foundLink
      exact (wired_targetStart sameLength partRoomy foundLink foundPart).trans
        (wired_signalSpot sameLength inRange)
  | seriesEnd foundLink =>
      obtain ⟨part, foundPart, -, partRoomy⟩ := exists_part foundLink
      exact wired_seriesEnd sameLength partRoomy foundLink foundPart
  | shuntEnd foundLink =>
      obtain ⟨part, foundPart, -, partRoomy⟩ := exists_part foundLink
      exact (wired_shuntEnd sameLength partRoomy foundLink foundPart).trans
        (wired_rail sameLength (List.getElem?_eq_some_iff.mp foundLink).1).symm
  | inside found tie =>
      rw [Circuit.parts, List.getElem?_map, Option.map_eq_some_iff] at found
      obtain ⟨link, foundLink, rfl⟩ := found
      obtain ⟨part, foundPart, sameCircuit, -⟩ := exists_part foundLink
      rw [← sameCircuit] at tie
      have foundChild := (@place_network_child settings links parts frame _ _).mpr
        ⟨link, part, foundLink, foundPart, rfl⟩
      exact (each part (List.mem_of_getElem? foundPart) _).inside foundChild tie

end

end Schematic
