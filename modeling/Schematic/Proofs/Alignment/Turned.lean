import Schematic.Proofs.Alignment.Leads

/-!
# Checking a transposed layout

Groups and wires are checked along and across their own signal.  So exchanging the
two axes of a layout changes nothing in what is found, however wrong the layout is.
Only the check of a twoport looks for its rail below it.
-/

namespace Schematic

namespace Alignment

/-- A layout without twoports has the same issues with its axes exchanged, in the same
order and up to their messages, in which the places are told. -/
theorem issues_of_transposed (layout : Layout Rat)
    (free : ∀ node ∈ layout.walk, ∀ links, node.placement.circuit ≠ .twoport links) :
    (issues (layout.map Placement.transposed)).map Issue.bare =
      (issues layout).map Issue.bare := by
  have all : ∀ layout, bareIssues (fun _ => true) layout = (issues layout).map Issue.bare :=
    fun layout => List.filter_true _
  rw [← all, ← all, ← Motion.placement_transposing]
  apply bareIssues_moved
  intro node isNode links isTwoport
  rw [← Layout.walk_eq_nodes] at isNode
  exact absurd isTwoport (free node isNode links)

/-- A hanging series group with a member beside its line, followed by a parallel group of
which a bus and a stub are missing. -/
def knocked : Layout Rat :=
  let resistor : Circuit := .element ⟨.resistor, some "1"⟩
  let short : Circuit := .element ⟨.openCircuit, none⟩
  let inductor : Circuit := .element ⟨.inductor, some "2"⟩
  let element (circuit : Circuit) (origin : Point Rat) (length : Rat) : Layout Rat :=
    .node
      { circuit, origin
        width := 30
        height := length
        leftPort := ⟨15, 0⟩
        rightPort := ⟨15, length⟩
        rotated := true } []
  .node
    { circuit := .series [resistor, .parallel [short, inductor]]
      origin := ⟨0, 0⟩
      width := 80
      height := 200
      leftPort := ⟨40, 0⟩
      rightPort := ⟨40, 200⟩
      rotated := true
      wires := [⟨⟨5, 0⟩, ⟨9, 3⟩⟩, ⟨⟨5, 5⟩, ⟨5, 5⟩⟩] }
    [element resistor ⟨20, 0⟩ 100,
      .node
        { circuit := .parallel [short, inductor]
          origin := ⟨0, 101⟩
          width := 80
          height := 100
          leftPort := ⟨40, 0⟩
          rightPort := ⟨40, 100⟩
          rotated := true
          wires := [⟨⟨15, 161⟩, ⟨15, 201⟩⟩]
          rightBus := some 201 }
        [element short ⟨0, 101⟩ 60, element inductor ⟨50, 101⟩ 90]]

theorem issues_of_transposed_knocked :
    (∀ node ∈ knocked.walk, ∀ links, node.placement.circuit ≠ .twoport links) ∧
    (issues (knocked.map Placement.transposed)).map Issue.bare =
      (issues knocked).map Issue.bare ∧
    (issues knocked).map Issue.code =
      [FindingKind.memberOffLine, .memberGap, .slantedWire, .emptyWire, .portOffBus,
        .leftBranchOffBus, .leftBranchOffBus, .rightBranchOffBus].map FindingKind.code := by
  have free : ∀ node ∈ knocked.walk, ∀ links, node.placement.circuit ≠ .twoport links := by
    rw [Layout.walk_eq_nodes]
    simp [knocked, Layout.nodes, Layout.nodesOfAll, Layout.placement]
  refine ⟨free, issues_of_transposed knocked free, ?_⟩
  rw [codes_eq]
  decide +kernel

end Alignment

end Schematic
