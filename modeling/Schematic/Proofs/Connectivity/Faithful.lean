import Schematic.Proofs.Connectivity.Lines

/-!
# Drawn nodes

The layout of a document draws its netlist: ports of elements are at one
electrical node of the drawing exactly when the circuit ties them.  Labels of
the ties show that nothing else is joined, and wires that nothing is missing.
-/

namespace Schematic

open Schematic.Alignment (Side)

variable {settings : LayoutSettings Rat} {measure : Measure Rat} {frame : Frame Rat}

/-! ## Parts and twoports -/

/-- The picture of a circuit keeps labels apart that agree on its ties. -/
theorem Measure.SizedRoot.exists_picture
    (sized : measure.SizedRoot SymbolLibrary.standard settings)
    (nonnegative : settings.IsNonnegative) (frame : Frame Rat) {Label : Type}
    {labels : Terminal → Label}
    (agree : ∀ first second, measure.circuit.Tie first second → labels first = labels second) :
    ∃ picture, Network.Separated picture ∧
      WiresIn (measure.place settings frame) frame picture ∧
      PortsIn (measure.place settings frame) frame (portLabels labels) picture := by
  cases sized with
  | part sized =>
      have agreePorts : (portLabels labels).Agree measure.circuit := fun _ _ _ _ tie =>
        agree _ _ tie
      exact ⟨_, (sized.clean nonnegative Label _ agreePorts).1.separated,
        sized.wiresIn frame (portLabels labels), sized.portsIn frame (portLabels labels)⟩
  | @twoport links parts sized sameParts =>
      have roomy : ∀ part ∈ parts, part.extent.IsRoomy := fun part isPart =>
        (sized part isPart).isRoomy nonnegative
      exact ⟨_, separated_ladder nonnegative roomy
          (fun part isPart => (sized part isPart).clean nonnegative) sameParts agree,
        @wiresIn_network settings links parts _ nonnegative roomy frame labels fun part isPart =>
          (sized part isPart).wiresIn,
        portsIn_network roomy frame labels fun part isPart => (sized part isPart).portsIn⟩

theorem Measure.Sized.not_twoport {symbols : SymbolLibrary Rat}
    (sized : measure.Sized symbols settings) (links : List (Link Circuit)) :
    measure.circuit ≠ .twoport links := by
  intro isTwoport
  cases sized with
  | element => cases isTwoport
  | series two parts measured => cases (seriesExtent_circuit measured).symm.trans isTwoport
  | parallel two parts measured => cases (parallelExtent_circuit measured).symm.trans isTwoport

/-- Every terminal of a circuit has a point, such that wires connect the points
of tied terminals. -/
theorem Measure.SizedRoot.exists_points
    (sized : measure.SizedRoot SymbolLibrary.standard settings)
    (nonnegative : settings.IsNonnegative) (frame : Frame Rat) :
    ∃ points : Terminal → Point Rat,
      (∀ path side, points (.port path side) = (measure.place settings frame).portAt path side) ∧
      ∀ first second, measure.circuit.Tie first second →
        Wired (measure.place settings frame).allWires (points first) (points second) := by
  cases sized with
  | part sized =>
      refine ⟨fun
        | .port path side => (measure.place settings frame).portAt path side
        | _ => ⟨0, 0⟩, fun _ _ => rfl, fun first second tie => ?_⟩
      have connects := sized.connects nonnegative frame
      have notTwoport := sized.not_twoport
      generalize measure.circuit = circuit at connects notTwoport tie
      cases tie with
      | first nonempty => exact connects _ _ _ _ (.first nonempty)
      | next inRange => exact connects _ _ _ _ (.next inRange)
      | last isLast => exact connects _ _ _ _ (.last isLast)
      | branch side inRange => exact connects _ _ _ _ (.branch side inRange)
      | inside found tie => exact connects _ _ _ _ (.inside found tie)
      | linkStart | seriesEnd | shuntEnd => exact absurd rfl (notTwoport _)
  | @twoport links parts sized sameParts =>
      refine ⟨terminalPoint settings links parts frame, fun _ _ => rfl, fun first second tie => ?_⟩
      exact network_connects sameParts (fun part isPart => (sized part isPart).isRoomy nonnegative)
        (fun part isPart => (sized part isPart).connects nonnegative) tie

theorem Measure.SizedRoot.mirrors {symbols : SymbolLibrary Rat}
    (sized : measure.SizedRoot symbols settings) (frame : Frame Rat) :
    Mirrors (measure.place settings frame) measure.circuit := by
  cases sized with
  | part sized => exact sized.mirrors frame
  | twoport sized sameParts =>
      exact mirrors_network sameParts fun part isPart => (sized part isPart).mirrors

/-! ## Nodes of the network -/

/-- A port of the element at a path, on one side. -/
def Layout.ElementPort (layout : Layout Rat) (path : List Nat) (side : Side)
    (point : Point Rat) : Prop :=
  ∃ node element, layout.nodeAt? path = some node ∧
    node.placement.circuit = .element element ∧ node.placement.portAt side = point

theorem Layout.ElementPort.isVertex {layout : Layout Rat} {path : List Nat} {side : Side}
    {point : Point Rat} (isPort : layout.ElementPort path side point) :
    Network.key point ∈ (Network.ofLayout layout).vertices := by
  obtain ⟨node, element, found, isElement, rfl⟩ := isPort
  refine Network.mem_vertices.mpr (.inl ?_)
  rw [walk_eq_nodes, List.mem_flatMap]
  refine ⟨node, mem_nodes_of_nodeAt? found, ?_⟩
  rw [Network.elementPorts, Placement.element?, isElement]
  cases side <;> simp [Placement.portAt]

theorem Layout.ElementPort.portAt_eq {layout : Layout Rat} {path : List Nat} {side : Side}
    {point : Point Rat} (isPort : layout.ElementPort path side point) :
    layout.portAt path side = point := by
  obtain ⟨node, element, found, -, rfl⟩ := isPort
  exact portAt_of_nodeAt? found side

theorem Frame.image_upright (upright : frame.rotated = false) (wire : Wire Rat) :
    frame.image wire = wire.shifted frame.origin := by
  simp [image, Frame.wire, Frame.point, Frame.offset, upright, Wire.shifted]

/-- Moving a picture to its frame keeps labels apart. -/
theorem separated_image {Label : Type} {picture : Picture Label} (upright : frame.rotated = false)
    (separated : Network.Separated picture) :
    Network.Separated fun wire label =>
      ∃ inner, picture inner label ∧ wire = frame.image inner := by
  rintro _ oneLabel _ otherLabel ⟨one, isOne, rfl⟩ ⟨other, isOther, rfl⟩
  rw [Frame.image_upright upright, Frame.image_upright upright]
  exact (separated isOne isOther).imp_right fun apart => apart.shifted _

section

variable (sized : measure.SizedRoot SymbolLibrary.standard settings)
  (nonnegative : settings.IsNonnegative) {path otherPath : List Nat} {side otherSide : Side}
  {first second : Point Rat}
  (isFirst : (measure.place settings frame).ElementPort path side first)
  (isSecond : (measure.place settings frame).ElementPort otherPath otherSide second)

include sized nonnegative isFirst isSecond in
/-- There are no shorts. -/
theorem sameNode_of_joined (upright : frame.rotated = false)
    (joined : Relation.EqvGen
      (Network.Edge (Network.ofLayout (measure.place settings frame)).edges)
      (Network.key first) (Network.key second)) :
    measure.circuit.SameNode (.port path side) (.port otherPath otherSide) := by
  -- The label of a terminal is its class: labels are equal exactly if ties connect the terminals.
  obtain ⟨picture, separated, wiresIn, portsIn⟩ := @Measure.SizedRoot.exists_picture _ _ sized
    nonnegative frame _ (Quot.mk measure.circuit.Tie) fun _ _ tie => Quot.sound tie
  have drawnSeparated := separated_image upright separated
  have drawn : ∀ wire ∈ (measure.place settings frame).allWires,
      ∃ label, ∃ inner, picture inner label ∧ wire = frame.image inner := by
    intro wire isWire
    obtain ⟨node, isNode, isOwn⟩ := Layout.mem_allWires.mp isWire
    obtain ⟨inner, label, isMark, same⟩ := wiresIn node isNode wire isOwn
    exact ⟨label, inner, isMark, same⟩
  obtain ⟨node, element, found, isElement, rfl⟩ := isFirst
  obtain ⟨otherNode, otherElement, otherFound, otherIsElement, rfl⟩ := isSecond
  obtain ⟨point, isMark, same⟩ := portsIn path node element side found isElement
  obtain ⟨otherPoint, otherIsMark, otherSame⟩ :=
    portsIn otherPath otherNode otherElement otherSide otherFound otherIsElement
  rw [same, otherSame] at joined
  have sameLabel := drawnSeparated.label_eq drawn ⟨_, isMark, rfl⟩ ⟨_, otherIsMark, rfl⟩ joined
  exact Quot.eqvGen_exact sameLabel

include sized nonnegative isFirst isSecond in
/-- No connection is missing. -/
theorem joined_of_sameNode
    (sameNode : measure.circuit.SameNode (.port path side) (.port otherPath otherSide)) :
    Relation.EqvGen (Network.Edge (Network.ofLayout (measure.place settings frame)).edges)
      (Network.key first) (Network.key second) := by
  obtain ⟨points, ports, connects⟩ := sized.exists_points nonnegative frame
  have wired : Wired (measure.place settings frame).allWires _ _ :=
    joined_image points connects sameNode
  rw [ports, ports, isFirst.portAt_eq, isSecond.portAt_eq] at wired
  exact wired.joined

end

/-- The layout of a document has a node for each part of the circuit, and two
ports of elements are at one electrical node exactly when the circuit connects
them. -/
theorem drawn_nodes_iff_netlist (settings : LayoutSettings Rat)
    (nonnegative : settings.IsNonnegative) (text : String) (circuit : Circuit)
    (parsed : Reading.parse text = .ok circuit) :
    ∃ layout, circuit.layout .standard settings = .ok layout ∧ Mirrors layout circuit ∧
      ∀ path otherPath side otherSide first second,
        layout.ElementPort path side first → layout.ElementPort otherPath otherSide second →
          ((Network.ofLayout layout).nodeOf? first).isSome ∧
          ((Network.ofLayout layout).nodeOf? first = (Network.ofLayout layout).nodeOf? second ↔
            circuit.SameNode (.port path side) (.port otherPath otherSide)) := by
  have wellFormed := Reading.wellFormed_of_parse parsed
  obtain ⟨measure, measured⟩ := @Circuit.WellFormed.exists_measure _ _ .standard settings _
    wellFormed fun _ _ => rfl
  obtain ⟨sized, rfl⟩ := wellFormed.sized measured
  refine ⟨_, Circuit.layout_of_measure measured, sized.mirrors _, ?_⟩
  intro path otherPath side otherSide first second isFirst isSecond
  refine ⟨Network.nodeOf?_isSome isFirst.isVertex, ?_⟩
  have closed : (Network.ofLayout (measure.place settings ⟨settings.origin, false⟩)).Closed :=
    Network.closed_ofWires
  rw [closed.nodeOf?_eq_iff isFirst.isVertex isSecond.isVertex]
  exact ⟨sameNode_of_joined sized nonnegative isFirst isSecond rfl,
    joined_of_sameNode sized nonnegative isFirst isSecond⟩

/-- Settings without any spacing. -/
def tight : LayoutSettings Rat :=
  ⟨0, 0, 0, 0, -7, 1 / 3, .center, false⟩

theorem drawn_nodes_iff_netlist_tight :
    tight.IsNonnegative ∧ ∃ circuit layout,
      Reading.parse "-(R1||(C1+L1))|Z2|(V3||O)-I4" = .ok circuit ∧
      circuit.layout .standard tight = .ok layout ∧ ∃ first second,
        layout.ElementPort [1] .right first ∧ layout.ElementPort [2, 0] .right second ∧
        (Network.ofLayout layout).nodeOf? first = (Network.ofLayout layout).nodeOf? second := by
  have nonnegative : tight.IsNonnegative := ⟨le_rfl, le_rfl, le_rfl, le_rfl⟩
  let impedance : Circuit := .element ⟨.impedance, some "2"⟩
  let source : Circuit := .element ⟨.voltageSource, some "3"⟩
  let shunt : Circuit := .parallel [source, .element ⟨.openCircuit, none⟩]
  let links : List (Link Circuit) := [
    ⟨.series, .parallel [.element ⟨.resistor, some "1"⟩,
      .series [.element ⟨.capacitor, some "1"⟩, .element ⟨.inductor, some "1"⟩]]⟩,
    ⟨.shunt, impedance⟩, ⟨.shunt, shunt⟩, ⟨.series, .element ⟨.currentSource, some "4"⟩⟩]
  have parsed : Reading.parse "-(R1||(C1+L1))|Z2|(V3||O)-I4" = .ok (.twoport links) := by
    apply eq_ok_of_toOption
    decide +kernel
  obtain ⟨layout, placed, mirrors, nodes⟩ := drawn_nodes_iff_netlist tight nonnegative _ _ parsed
  have exists_port : ∀ path element,
      (Circuit.twoport links).partAt? path = some (.element element) →
        ∃ point, layout.ElementPort path .right point := by
    intro path element found
    rw [← mirrors path, Option.map_eq_some_iff] at found
    obtain ⟨node, found, isElement⟩ := found
    exact ⟨_, node, element, found, isElement, rfl⟩
  obtain ⟨first, isFirst⟩ := exists_port [1] _ rfl
  obtain ⟨second, isSecond⟩ := exists_port [2, 0] _ rfl
  have firstRail : (Circuit.twoport links).Tie (.port [1] .right) .rail := .shuntEnd rfl
  have secondRail : (Circuit.twoport links).Tie (.port [2] .right) .rail := .shuntEnd rfl
  have branch : (Circuit.twoport links).Tie (.port [2] .right) (.port [2, 0] .right) :=
    .inside rfl (.branch .right (by decide))
  refine ⟨nonnegative, _, layout, parsed, placed, first, second, isFirst, isSecond, ?_⟩
  refine (nodes _ _ _ _ first second isFirst isSecond).2.mpr ?_
  exact .trans _ _ _ (.rel _ _ firstRail) (.trans _ _ _ (.symm _ _ (.rel _ _ secondRail))
    (.rel _ _ branch))

end Schematic
