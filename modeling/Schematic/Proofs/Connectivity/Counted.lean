import Schematic.Proofs.Connectivity.Headings
import Schematic.Proofs.Connectivity.Nodes

/-!
# Connections and junctions of layouts

At a vertex of a layout there are as many connections as there are ports and
directions in which wires leave it, in exact and in double-precision arithmetic
alike.  The junctions are the vertices that have at least three.
-/

namespace Schematic

open Scalar.Ranked

section

variable {α : Type} [Scalar α] [Scalar.Ranked α]

theorem Heading.leads_eq (heading : Heading) {start finish : Point α}
    {startRanks finishRanks : Point Rat} (startHas : start.HasRanks startRanks)
    (finishHas : finish.HasRanks finishRanks) :
    heading.leads start finish = heading.leads startRanks finishRanks := by
  cases heading <;>
    simp only [leads, lt_iff startHas.x finishHas.x, lt_iff finishHas.x startHas.x,
      lt_iff startHas.y finishHas.y, lt_iff finishHas.y startHas.y,
      beq_eq finishHas.x startHas.x, beq_eq finishHas.y startHas.y]

namespace Network

variable {ports : List (Point α)} {portsRanks : List (Point Rat)} {wires : List (Wire α)}
  {wiresRanks : List (Wire Rat)} {wire : Wire α} {wireRanks : Wire Rat} {point : Point α}
  {ranks : Point Rat}

theorem leaves_eq (wireHas : wire.HasRanks wireRanks) (has : point.HasRanks ranks)
    (heading : Heading) : wire.leaves point heading = wireRanks.leaves ranks heading := by
  rw [Wire.leaves, Wire.leaves, carries_eq wireHas has, heading.leads_eq has wireHas.start,
    heading.leads_eq has wireHas.finish]

theorem HasRanks.weight {network : Network α} {networkRanks : Network Rat}
    (networkHas : network.HasRanks networkRanks) (has : point.HasRanks ranks) :
    network.weight point = networkRanks.weight ranks := by
  have degrees : network.degree point = networkRanks.degree ranks :=
    countP_eq networkHas.edges fun _ _ edge => by
      rw [Point.same_eq has edge.first, Point.same_eq has edge.second]
  rw [Network.weight, Network.weight, degrees]
  congr 1
  exact countP_eq networkHas.ports fun _ _ port => Point.same_eq has port

section

variable (portsHave : List.Forall₂ Point.HasRanks ports portsRanks)
  (wiresHave : List.Forall₂ Wire.HasRanks wires wiresRanks)

include portsHave wiresHave

theorem meetings_eq (has : point.HasRanks ranks) :
    meetings ports wires point = meetings portsRanks wiresRanks ranks := by
  have sameHeadings : headings wires point = headings wiresRanks ranks :=
    List.filter_congr fun heading _ => any_eq wiresHave fun _ _ wireHas =>
      leaves_eq wireHas has heading
  rw [meetings, meetings, sameHeadings, countP_eq portsHave fun _ _ port => Point.same_eq has port]

/-- The vertices are the points where something ends. -/
theorem hasVertex_eq_endsAt : (ofWires ports wires).hasVertex point = endsAt ports wires point := by
  have vertices := (ofWires_hasRanks portsHave wiresHave).vertices
  have same : ∀ ranks, point.HasRanks ranks →
      (ofWires ports wires).hasVertex point = endsAt ports wires point := by
    intro ranks has
    rw [endsAt_eq portsHave wiresHave has, Bool.eq_iff_iff, endsAt_iff, ← holds_iff,
      ← holds_eq vertices has]
    rfl
  rw [Bool.eq_iff_iff]
  constructor
  · intro isVertex
    obtain ⟨ranks, has⟩ := exists_hasRanks_of_any vertices isVertex
    rwa [← same ranks has]
  · intro ends
    obtain ⟨ranks, has⟩ := exists_hasRanks_of_endsAt portsHave wiresHave ends
    rwa [same ranks has]

theorem junctions_hasRanks :
    List.Forall₂ Point.HasRanks (ofWires ports wires).junctions
      (ofWires portsRanks wiresRanks).junctions := by
  have networkHas := ofWires_hasRanks portsHave wiresHave
  exact filter_related networkHas.vertices fun _ _ has => by rw [networkHas.weight has]

theorem pairwise_before_junctions :
    (ofWires ports wires).junctions.Pairwise fun one other => one.before other = true := by
  refine pairwise_of_related (junctions_hasRanks portsHave wiresHave)
    (fun _ _ one _ _ other isBefore => ?_) ascending_junctions
  rwa [Point.before_eq one other]

variable (straight : ∀ wire ∈ wiresRanks, wire.IsStraight)

include straight

theorem weight_eq_of_endsAt (ends : endsAt ports wires point = true) :
    (ofWires ports wires).weight point = meetings ports wires point := by
  obtain ⟨ranks, has⟩ := exists_hasRanks_of_endsAt portsHave wiresHave ends
  rw [endsAt_eq portsHave wiresHave has] at ends
  rw [(ofWires_hasRanks portsHave wiresHave).weight has, weight_eq_meetings straight ends,
    meetings_eq portsHave wiresHave has]

theorem holds_junctions_iff : holds (ofWires ports wires).junctions point = true ↔
    endsAt ports wires point = true ∧ 3 ≤ meetings ports wires point := by
  have junctionsHave := junctions_hasRanks portsHave wiresHave
  have equivalent : ∀ ranks, point.HasRanks ranks →
      (holds (ofWires ports wires).junctions point = true ↔
        endsAt ports wires point = true ∧ 3 ≤ meetings ports wires point) := by
    intro ranks has
    rw [holds_eq junctionsHave has, holds_iff, mem_junctions straight,
      endsAt_eq portsHave wiresHave has, meetings_eq portsHave wiresHave has]
  constructor
  · intro isHeld
    obtain ⟨ranks, has⟩ := exists_hasRanks_of_any junctionsHave isHeld
    exact (equivalent ranks has).mp isHeld
  · intro counted
    obtain ⟨ranks, has⟩ := exists_hasRanks_of_endsAt portsHave wiresHave counted.1
    exact (equivalent ranks has).mpr counted

end

end Network

namespace Layout

open Network in
/-- At a point where something ends in a layout with straight wires there is a connection
for each port and one for each direction in which some wire leaves it, however many wires
do.  The junctions are the points with at least three of them, in order. -/
theorem connections_are_meetings (layout : Layout α) (numbers : layout.HasNumbers)
    (straight : layout.IsStraight) :
    let network := Network.ofLayout layout
    (∀ point, network.connectionCount point =
      if endsAt layout.keyPorts layout.keyWires (key point) = true then
        meetings layout.keyPorts layout.keyWires (key point)
      else 0) ∧
    network.junctions.Pairwise (fun one other => one.before other = true) ∧
    ∀ point, holds network.junctions point = true ↔
      endsAt layout.keyPorts layout.keyWires point = true ∧
        3 ≤ meetings layout.keyPorts layout.keyWires point := by
  obtain ⟨portsRanks, wiresRanks, portsHave, wiresHave⟩ := numbers.exists_ranks
  have straightRanks := straight.ranks wiresHave
  refine ⟨fun point => ?_, pairwise_before_junctions portsHave wiresHave,
    fun _ => holds_junctions_iff portsHave wiresHave straightRanks⟩
  change (if (ofWires layout.keyPorts layout.keyWires).hasVertex (key point) = true then
    (ofWires layout.keyPorts layout.keyWires).weight (key point) else 0) = _
  rw [hasVertex_eq_endsAt portsHave wiresHave]
  split
  · next ends => exact weight_eq_of_endsAt portsHave wiresHave straightRanks ends
  · rfl

end Layout

end

namespace Layout

open Network in
/-- Two wires that overlap to the left of a port and one that crosses their line are
counted by their directions. -/
theorem connections_are_meetings_overlapping :
    let layout := resistorWith [⟨⟨0, 15⟩, ⟨-20, 15⟩⟩, ⟨⟨-40, 15⟩, ⟨0, 15⟩⟩, ⟨⟨-20, 15⟩, ⟨-20, 40⟩⟩]
    layout.HasNumbers ∧ layout.IsStraight ∧
      (Network.ofLayout layout).connectionCount ⟨0, 15⟩ = 2 ∧
      (Network.ofLayout layout).connectionCount ⟨-20, 15⟩ = 3 ∧
      (Network.ofLayout layout).connectionCount ⟨-10, 15⟩ = 0 ∧
      holds (Network.ofLayout layout).junctions ⟨-20, 15⟩ = true := by
  intro layout
  have numbers : layout.HasNumbers := ⟨by decide +kernel, by decide +kernel⟩
  have straight : layout.IsStraight := by
    unfold IsStraight Wire.IsStraight
    decide +kernel
  obtain ⟨counts, -, junctions⟩ := connections_are_meetings layout numbers straight
  refine ⟨numbers, straight, ?_, ?_, ?_, ?_⟩
  · rw [counts]
    decide +kernel
  · rw [counts]
    decide +kernel
  · rw [counts]
    decide +kernel
  · rw [junctions]
    decide +kernel

end Layout

end Schematic
