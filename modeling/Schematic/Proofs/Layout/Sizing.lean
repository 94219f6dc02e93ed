import Mathlib.Data.List.Forall2
import Schematic.Layout.Place
import Schematic.Proofs.Layout.Frames
import Schematic.Proofs.Layout.Walk
import Schematic.Proofs.Outcome
import Schematic.Proofs.Reading.WellFormed

/-!
# Measures of well-formed circuits

Measuring fails only at an element whose kind has no symbol.  This file
describes the measures of well-formed circuits by induction over their parts,
and proves that both ports of such a measure are on one line, from the left
edge of the box to its right edge, whenever this holds of all symbols.
-/

namespace Schematic

variable {α : Type} [Scalar α] {symbols : SymbolLibrary α} {settings : LayoutSettings α}

namespace Circuit

mutual

/-- The elements of a circuit, from left to right in its notation. -/
def elements : Circuit → List Element
  | .element single => [single]
  | .series members => elementsOfAll members
  | .parallel branches => elementsOfAll branches
  | .twoport links => elementsOfLinks links
  | .link ⟨_, target⟩ => target.elements

/-- The elements of several circuits. -/
def elementsOfAll : List Circuit → List Element
  | [] => []
  | circuit :: rest => circuit.elements ++ elementsOfAll rest

/-- The elements of the targets of links. -/
def elementsOfLinks : List (Link Circuit) → List Element
  | [] => []
  | ⟨_, target⟩ :: rest => target.elements ++ elementsOfLinks rest

end

theorem mem_elementsOfAll {circuits : List Circuit} {element : Element} :
    element ∈ elementsOfAll circuits ↔ ∃ circuit ∈ circuits, element ∈ circuit.elements := by
  induction circuits with
  | nil => simp [elementsOfAll]
  | cons circuit rest ih => simp [elementsOfAll, ih]

theorem elementsOfLinks_eq (links : List (Link Circuit)) :
    elementsOfLinks links = elementsOfAll (links.map Link.target) := by
  induction links with
  | nil => rfl
  | cons link rest ih =>
      rw [elementsOfLinks, ih]
      rfl

end Circuit

/-! ## Measuring several circuits -/

theorem measureAll_eq_ok {circuits : List Circuit} {parts : List (Measure α)} :
    measureAll symbols settings circuits = .ok parts ↔
      List.Forall₂ (fun circuit part => circuit.measure symbols settings = .ok part)
        circuits parts := by
  induction circuits generalizing parts with
  | nil => simp [measureAll, eq_comm]
  | cons circuit rest ih =>
      rw [List.forall₂_cons_left_iff]
      constructor
      · intro measured
        rw [measureAll] at measured
        obtain ⟨first, firstMeasured, measured⟩ := exists_of_bind_eq_ok measured
        obtain ⟨others, othersMeasured, measured⟩ := exists_of_bind_eq_ok measured
        cases measured
        exact ⟨first, others, firstMeasured, ih.mp othersMeasured, rfl⟩
      · rintro ⟨first, others, firstMeasured, othersMeasured, rfl⟩
        rw [measureAll, firstMeasured, ih.mpr othersMeasured]
        rfl

theorem measureTargets_eq (links : List (Link Circuit)) :
    measureTargets symbols settings links =
      measureAll symbols settings (links.map Link.target) := by
  induction links with
  | nil => rfl
  | cons link rest ih =>
      rw [measureTargets, ih, List.map_cons, measureAll]

theorem exists_measureAll {circuits : List Circuit}
    (each : ∀ circuit ∈ circuits, ∃ part, circuit.measure symbols settings = .ok part) :
    ∃ parts, measureAll symbols settings circuits = .ok parts := by
  induction circuits with
  | nil => exact ⟨[], rfl⟩
  | cons circuit rest ih =>
      obtain ⟨first, firstMeasured⟩ := each circuit List.mem_cons_self
      obtain ⟨others, othersMeasured⟩ := ih fun other member =>
        each other (List.mem_cons_of_mem circuit member)
      exact ⟨first :: others, by rw [measureAll, firstMeasured, othersMeasured]; rfl⟩

/-! ## Sized measures -/

namespace Measure

/-- The circuit that is measured. -/
def circuit (measure : Measure α) : Circuit :=
  measure.extent.circuit

/-- The measure of a circuit that may be a part of another one. -/
inductive Sized (symbols : SymbolLibrary α) (settings : LayoutSettings α) :
    Measure α → Prop where
  | element {element : Element} {symbol : Symbol α} :
      symbols element.kind = some symbol →
      Sized symbols settings (.node (symbol.extent element) [])
  | series {parts : List (Measure α)} {extent : Extent α} :
      2 ≤ parts.length → (∀ part ∈ parts, Sized symbols settings part) →
      seriesExtent (.series (parts.map circuit)) (parts.map Measure.extent) = .ok extent →
      Sized symbols settings (.node extent parts)
  | parallel {parts : List (Measure α)} {extent : Extent α} :
      2 ≤ parts.length → (∀ part ∈ parts, Sized symbols settings part) →
      parallelExtent settings (.parallel (parts.map circuit)) (parts.map Measure.extent) =
        .ok extent →
      Sized symbols settings (.node extent parts)

/-- The measure of a twoport whose targets have the given measures. -/
def network (settings : LayoutSettings α) (links : List (Link Circuit))
    (parts : List (Measure α)) : Measure α :=
  let extents := (links.map Link.kind).zip (parts.map Measure.extent)
  .node (twoportExtent settings (.twoport links) extents) parts

/-- The measure of a circuit on its own: of a part, or of a twoport. -/
inductive SizedRoot (symbols : SymbolLibrary α) (settings : LayoutSettings α) :
    Measure α → Prop where
  | part {measure : Measure α} :
      Sized symbols settings measure → SizedRoot symbols settings measure
  | twoport {links : List (Link Circuit)} {parts : List (Measure α)} :
      (∀ part ∈ parts, Sized symbols settings part) →
      parts.map circuit = links.map Link.target →
      SizedRoot symbols settings (network settings links parts)

end Measure

open Schematic.Measure

theorem seriesExtent_circuit {circuit : Circuit} {extents : List (Extent α)}
    {extent : Extent α} (measured : seriesExtent circuit extents = .ok extent) :
    extent.circuit = circuit := by
  cases extents with
  | nil => cases measured
  | cons first rest =>
      cases measured
      rfl

theorem parallelExtent_circuit {circuit : Circuit} {extents : List (Extent α)}
    {extent : Extent α} (measured : parallelExtent settings circuit extents = .ok extent) :
    extent.circuit = circuit := by
  cases extents with
  | nil => cases measured
  | cons first rest =>
      cases measured
      rfl

theorem sized_parts {circuits : List Circuit} {parts : List (Measure α)}
    (each : ∀ circuit ∈ circuits, ∀ part, circuit.measure symbols settings = .ok part →
      Sized symbols settings part ∧ part.circuit = circuit)
    (measured : measureAll symbols settings circuits = .ok parts) :
    (∀ part ∈ parts, Sized symbols settings part) ∧ parts.map circuit = circuits := by
  rw [measureAll_eq_ok] at measured
  induction measured with
  | nil => simp
  | @cons circuit part circuits parts first others ih =>
      obtain ⟨firstSized, firstCircuit⟩ := each circuit List.mem_cons_self part first
      obtain ⟨othersSized, othersCircuits⟩ := ih fun other member =>
        each other (List.mem_cons_of_mem circuit member)
      exact ⟨by simpa using ⟨firstSized, othersSized⟩, by simp [firstCircuit, othersCircuits]⟩

/-- A well-formed part has a sized measure. -/
theorem Circuit.IsPart.sized {circuit : Circuit} (part : circuit.IsPart) (measure : Measure α)
    (measured : circuit.measure symbols settings = .ok measure) :
    measure.Sized symbols settings ∧ measure.circuit = circuit := by
  induction part generalizing measure with
  | @element element =>
      rw [Circuit.measure] at measured
      split at measured
      · cases measured
      · next known =>
        cases measured
        exact ⟨.element known, rfl⟩
  | @series members two _ ih =>
      rw [Circuit.measure] at measured
      obtain ⟨parts, partsMeasured, measured⟩ := exists_of_bind_eq_ok measured
      obtain ⟨extent, extentMeasured, measured⟩ := exists_of_bind_eq_ok measured
      cases measured
      obtain ⟨sized, rfl⟩ := sized_parts ih partsMeasured
      rw [List.length_map] at two
      exact ⟨.series two sized extentMeasured, seriesExtent_circuit extentMeasured⟩
  | @parallel branches two _ ih =>
      rw [Circuit.measure] at measured
      obtain ⟨parts, partsMeasured, measured⟩ := exists_of_bind_eq_ok measured
      obtain ⟨extent, extentMeasured, measured⟩ := exists_of_bind_eq_ok measured
      cases measured
      obtain ⟨sized, rfl⟩ := sized_parts ih partsMeasured
      rw [List.length_map] at two
      exact ⟨.parallel two sized extentMeasured, parallelExtent_circuit extentMeasured⟩

/-- A well-formed circuit has the measure of a part or of a twoport. -/
theorem Circuit.WellFormed.sized {circuit : Circuit} (wellFormed : circuit.WellFormed)
    {measure : Measure α} (measured : circuit.measure symbols settings = .ok measure) :
    measure.SizedRoot symbols settings ∧ measure.circuit = circuit := by
  cases wellFormed with
  | part part =>
      obtain ⟨sized, same⟩ := part.sized measure measured
      exact ⟨.part sized, same⟩
  | @twoport links _ targets =>
      rw [Circuit.measure] at measured
      obtain ⟨parts, partsMeasured, measured⟩ := exists_of_bind_eq_ok measured
      cases measured
      rw [measureTargets_eq] at partsMeasured
      have each : ∀ target ∈ links.map Link.target, target.IsPart := by simpa using targets
      obtain ⟨sized, same⟩ := sized_parts (fun target member => (each target member).sized)
        partsMeasured
      exact ⟨.twoport sized same, rfl⟩

/-! ## Measuring succeeds -/

theorem exists_measure_of_parts {circuits : List Circuit} (nonempty : circuits ≠ [])
    (each : ∀ circuit ∈ circuits, ∃ part, circuit.measure symbols settings = .ok part) :
    ∃ first rest, measureAll symbols settings circuits = .ok (first :: rest) := by
  obtain ⟨parts, measured⟩ := exists_measureAll each
  cases parts with
  | nil =>
      have none := measureAll_eq_ok.mp measured
      exact absurd (List.forall₂_nil_right_iff.mp none) nonempty
  | cons first rest => exact ⟨first, rest, measured⟩

theorem Circuit.IsPart.exists_measure {circuit : Circuit} (part : circuit.IsPart)
    (known : ∀ element ∈ circuit.elements, (symbols element.kind).isSome) :
    ∃ measure, circuit.measure symbols settings = .ok measure := by
  induction part with
  | @element element =>
      obtain ⟨symbol, found⟩ := Option.isSome_iff_exists.mp (known element (by simp [elements]))
      exact ⟨_, by rw [Circuit.measure, found]⟩
  | @series members two _ ih =>
      obtain ⟨first, rest, measured⟩ := exists_measure_of_parts (by rintro rfl; simp at two)
        fun member isMember => ih member isMember fun element isElement =>
          known element (mem_elementsOfAll.mpr ⟨member, isMember, isElement⟩)
      exact ⟨_, by rw [Circuit.measure, measured]; rfl⟩
  | @parallel branches two _ ih =>
      obtain ⟨first, rest, measured⟩ := exists_measure_of_parts (by rintro rfl; simp at two)
        fun branch isBranch => ih branch isBranch fun element isElement =>
          known element (mem_elementsOfAll.mpr ⟨branch, isBranch, isElement⟩)
      exact ⟨_, by rw [Circuit.measure, measured]; rfl⟩

/-- A well-formed circuit is measured if there is a symbol for each of its
elements. -/
theorem Circuit.WellFormed.exists_measure {circuit : Circuit} (wellFormed : circuit.WellFormed)
    (known : ∀ element ∈ circuit.elements, (symbols element.kind).isSome) :
    ∃ measure, circuit.measure symbols settings = .ok measure := by
  cases wellFormed with
  | part part => exact part.exists_measure known
  | @twoport links _ targets =>
      rw [elements, elementsOfLinks_eq] at known
      have each : ∀ target ∈ links.map Link.target, ∃ part,
          target.measure symbols settings = .ok part := by
        intro target isTarget
        obtain ⟨link, isLink, rfl⟩ := List.mem_map.mp isTarget
        exact (targets link isLink).exists_measure fun element isElement =>
          known element (mem_elementsOfAll.mpr ⟨link.target, isTarget, isElement⟩)
      obtain ⟨parts, measured⟩ := exists_measureAll each
      exact ⟨_, by rw [Circuit.measure, measureTargets_eq, measured]; rfl⟩

theorem Circuit.layout_of_measure {circuit : Circuit} {measure : Measure α}
    (measured : circuit.measure symbols settings = .ok measure) :
    circuit.layout symbols settings = .ok (measure.place settings ⟨settings.origin, false⟩) := by
  rw [Circuit.layout, measured]
  rfl

/-! ## Nodes of placed circuits -/

/-- What holds of every placed part of a measure and of the place of the measure itself holds
of all nodes. -/
theorem Measure.forall_nodes {measure : Measure α} {property : Layout α → Prop} {frame : Frame α}
    (root : property (measure.place settings frame))
    (each : ∀ part ∈ measure.parts, ∀ frame, ∀ node ∈ (part.place settings frame).nodes,
      property node) :
    ∀ node ∈ (measure.place settings frame).nodes, property node := by
  intro node isNode
  rcases Layout.mem_nodes.mp isNode with rfl | ⟨child, isChild, inChild⟩
  · exact root
  · obtain ⟨part, isPart, partFrame, rfl⟩ := Measure.exists_of_mem_children isChild
    exact each part isPart partFrame node inChild

theorem Measure.place_circuit (measure : Measure α) (frame : Frame α) :
    (measure.place settings frame).placement.circuit = measure.circuit := by
  cases measure with
  | node extent parts => exact placement_circuit

/-- If the node is an element, it is the place of the symbol of its kind. -/
def Layout.HasSymbol (symbols : SymbolLibrary α) (node : Layout α) : Prop :=
  ∀ element, node.placement.element? = some element →
    ∃ symbol frame, symbols element.kind = some symbol ∧
      node.placement = barePlacement (symbol.extent element) frame

theorem Measure.hasSymbol_of_not_element {measure : Measure α} {frame : Frame α}
    (noElement : ∀ element, measure.extent.circuit ≠ .element element) :
    (measure.place settings frame).HasSymbol symbols := by
  intro element isElement
  rw [Placement.element?, place_circuit] at isElement
  split at isElement
  · next isCircuit => exact absurd isCircuit (noElement _)
  · cases isElement

theorem Measure.Sized.hasSymbol {measure : Measure α} (sized : measure.Sized symbols settings)
    (frame : Frame α) :
    ∀ node ∈ (measure.place settings frame).nodes, node.HasSymbol symbols := by
  induction sized generalizing frame with
  | @element element symbol known =>
      refine forall_nodes ?_ nofun
      intro other isElement
      obtain rfl : element = other := Option.some_inj.mp isElement
      exact ⟨symbol, frame, known, rfl⟩
  | series two parts measured ih =>
      refine forall_nodes (hasSymbol_of_not_element fun element isCircuit => ?_) ih
      cases (seriesExtent_circuit measured).symm.trans isCircuit
  | parallel two parts measured ih =>
      refine forall_nodes (hasSymbol_of_not_element fun element isCircuit => ?_) ih
      cases (parallelExtent_circuit measured).symm.trans isCircuit

/-- Every element of the layout of a circuit is the place of its symbol. -/
theorem Measure.SizedRoot.hasSymbol {measure : Measure α}
    (sized : measure.SizedRoot symbols settings) (frame : Frame α) :
    ∀ node ∈ (measure.place settings frame).nodes, node.HasSymbol symbols := by
  cases sized with
  | part sized => exact sized.hasSymbol frame
  | twoport sized sameParts =>
      refine Measure.forall_nodes (hasSymbol_of_not_element fun element isCircuit => ?_)
        fun part isPart => (sized part isPart).hasSymbol
      cases isCircuit

/-! ## Straight extents -/

/-- Both ports are on one line, from the left edge to the right edge. -/
structure Extent.IsStraight (extent : Extent α) : Prop where
  left : extent.leftPort.x = Scalar.zero
  right : extent.rightPort = ⟨extent.width, extent.leftPort.y⟩

/-- The ports of a symbol are at the same height of its left and right edges. -/
def Symbol.IsStraight (symbol : Symbol α) : Prop :=
  ∃ height, symbol.ports = (⟨Scalar.zero, height⟩, ⟨symbol.width, height⟩)

/-- Every symbol in use is straight. -/
def SymbolLibrary.IsStraight (symbols : SymbolLibrary α) : Prop :=
  ∀ kind symbol, symbols kind = some symbol → symbol.IsStraight

theorem Symbol.IsStraight.extent {symbol : Symbol α} (straight : symbol.IsStraight)
    (element : Element) : (symbol.extent element).IsStraight := by
  obtain ⟨height, ports⟩ := straight
  exact ⟨by simp [Symbol.extent, ports], by simp [Symbol.extent, ports]⟩

theorem seriesExtent_isStraight {circuit : Circuit} {extents : List (Extent α)}
    {extent : Extent α} (measured : seriesExtent circuit extents = .ok extent) :
    extent.IsStraight := by
  cases extents with
  | nil => cases measured
  | cons first rest =>
      cases measured
      exact ⟨rfl, rfl⟩

theorem parallelExtent_isStraight {circuit : Circuit} {extents : List (Extent α)}
    {extent : Extent α} (measured : parallelExtent settings circuit extents = .ok extent) :
    extent.IsStraight := by
  cases extents with
  | nil => cases measured
  | cons first rest =>
      cases measured
      exact ⟨rfl, rfl⟩

theorem Measure.Sized.isStraight {measure : Measure α} (sized : measure.Sized symbols settings)
    (straight : symbols.IsStraight) : measure.extent.IsStraight := by
  cases sized with
  | element known => exact (straight _ _ known).extent _
  | series two parts measured => exact seriesExtent_isStraight measured
  | parallel two parts measured => exact parallelExtent_isStraight measured

end Schematic
