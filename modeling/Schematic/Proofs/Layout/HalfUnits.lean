import Schematic.Proofs.Layout.DoublePrecision

/-!
# Half units

With whole distances every coordinate of a layout is a multiple of one half.
Rounding the coordinates for the network keeps such a point where it is, and
double precision computes with such coordinates as if they were exact, up to
`2 ^ 52`.
-/

namespace Schematic

open Number (HoldsHalf HoldsWhole wholes halves)

/-! ## Rounded points -/

theorem roundTo_halves {value : Rat} (half : value ∈ halves) :
    Scalar.roundTo Network.places value = value :=
  Number.roundToPlaces_halves half

theorem Point.IsOnGrid.key_eq {point : Point Rat} (onGrid : point.IsOnGrid) :
    Network.key point = point :=
  Point.eq_of_coordinates (roundTo_halves onGrid.x) (roundTo_halves onGrid.y)

theorem Wire.IsOnGrid.keyWire_eq {wire : Wire Rat} (onGrid : wire.IsOnGrid) :
    Network.keyWire wire = wire := by
  rw [Network.keyWire, onGrid.start.key_eq, onGrid.finish.key_eq]

/-! ## Double precision -/

/-- Comparing, computing and rounding two double-precision numbers does what it
does with the given values, as long as the results are below `2 ^ 52`. -/
structure ComputesExactly (first second : Float) (firstValue secondValue : Rat) : Prop where
  lt : first < second ↔ firstValue < secondValue
  le : first ≤ second ↔ firstValue ≤ secondValue
  beq : (first == second) = true ↔ firstValue = secondValue
  larger : HoldsHalf (Scalar.larger first second) (Scalar.larger firstValue secondValue)
  add : |firstValue + secondValue| < 2 ^ 52 → HoldsHalf (first + second) (firstValue + secondValue)
  sub : |firstValue - secondValue| < 2 ^ 52 → HoldsHalf (first - second) (firstValue - secondValue)
  mul : firstValue ∈ wholes → secondValue ∈ wholes → |firstValue * secondValue| < 2 ^ 52 →
    HoldsHalf (first * second) (firstValue * secondValue)
  half : firstValue ∈ wholes → HoldsHalf (Scalar.half first) (Scalar.half firstValue)
  abs : HoldsHalf (Scalar.abs first) (Scalar.abs firstValue)
  rounded : HoldsHalf (Scalar.roundTo Network.places first) firstValue
  unchanged : (Scalar.roundTo Network.places first == first) = true

theorem computesExactly {first second : Float} {firstValue secondValue : Rat}
    (firstHolds : HoldsHalf first firstValue) (secondHolds : HoldsHalf second secondValue) :
    ComputesExactly first second firstValue secondValue where
  lt := firstHolds.exact.lt_iff secondHolds.exact
  le := firstHolds.exact.le_iff secondHolds.exact
  beq := firstHolds.exact.beq_iff secondHolds.exact
  larger := firstHolds.larger secondHolds
  add := firstHolds.add secondHolds
  sub := firstHolds.sub secondHolds
  mul := firstHolds.mul secondHolds
  half := firstHolds.scalar_half
  abs := (Scalar.abs_eq firstValue).symm ▸ firstHolds.abs
  rounded := firstHolds.roundTo
  unchanged := (firstHolds.roundTo.exact.beq_iff firstHolds.exact).mpr rfl

/-! ## Layouts -/

/-- With whole distances, all of the layout of a document is on the grid of half
units, and its boxes of elements and groups have whole sizes.  Rounding keeps the
ends of ports and wires, and double precision computes exactly with all numbers on
the grid below `2 ^ 52`.  If all of the layout is sure to be below that, then it is
the exact layout that is computed. -/
theorem layout_keeps_half_units :
    (∀ text circuit (settings : LayoutSettings Rat), Reading.parse text = .ok circuit →
      settings.IsWhole →
      ∃ layout, circuit.layout .standard settings = .ok layout ∧
        ∀ node ∈ layout.walk, node.placement.IsOnGrid ∧
          Network.key node.placement.leftEnd = node.placement.leftEnd ∧
          Network.key node.placement.rightEnd = node.placement.rightEnd ∧
          ∀ wire ∈ node.placement.wires, Network.keyWire wire = wire) ∧
    (∀ value ∈ halves, Scalar.roundTo Network.places value = value ∧
      (|value| < 2 ^ 52 → ∃ number, HoldsHalf number value)) ∧
    (∀ first second firstValue secondValue, HoldsHalf first firstValue →
      HoldsHalf second secondValue → ComputesExactly first second firstValue secondValue) ∧
    ∀ text circuit (computedSettings : LayoutSettings Float) (settings : LayoutSettings Rat)
      (limit : Rat), Reading.parse text = .ok circuit →
      computedSettings.Rel (HoldsWhole limit) settings → 100 ≤ limit →
      circuit.elements.length ^ 2 * limit < 2 ^ 48 →
      ∃ computed layout, circuit.layout .standard computedSettings = .ok computed ∧
        circuit.layout .standard settings = .ok layout ∧ computed.Rel HoldsHalf layout := by
  refine ⟨?_, fun value half => ⟨roundTo_halves half, Number.exists_holdsHalf half⟩,
    fun _ _ _ _ => computesExactly, fun _ _ _ _ _ parsed settled large fits =>
      layout_computed (Reading.wellFormed_of_parse parsed) large fits settled⟩
  intro text circuit settings parsed whole
  have wellFormed := Reading.wellFormed_of_parse parsed
  obtain ⟨measure, measured⟩ : ∃ measure, circuit.measure .standard settings = .ok measure :=
    wellFormed.exists_measure fun _ _ => rfl
  have placed := Circuit.layout_of_measure measured
  refine ⟨_, placed, fun node isNode => ?_⟩
  have onGrid := layout_isOnGrid wellFormed SymbolLibrary.standard_isWhole whole placed node isNode
  exact ⟨onGrid, (onGrid.origin.add onGrid.leftPort).key_eq,
    (onGrid.origin.add onGrid.rightPort).key_eq,
    fun wire isWire => (onGrid.wires wire isWire).keyWire_eq⟩

/-- Odd distances, so that halves of them are between the whole numbers. -/
def LayoutSettings.odd : LayoutSettings Rat :=
  ⟨15, 61, 7, -9, 1, 3, .center, true⟩

/-- The odd distances in double precision. -/
def LayoutSettings.oddComputed : LayoutSettings Float :=
  ⟨15, 61, 7, -9, 1, 3, .center, true⟩

theorem layout_keeps_half_units_odd :
    (∃ circuit layout, Reading.parse "-R1|(C2||(L3+V4))" = .ok circuit ∧
      LayoutSettings.odd.IsWhole ∧
      circuit.layout .standard .odd = .ok layout ∧
      ∀ node ∈ layout.walk, node.placement.IsOnGrid) ∧
    (HoldsHalf 97.5 (195 / 2) ∧ HoldsHalf (-0.5) (-1 / 2) ∧
      ComputesExactly 97.5 (-0.5) (195 / 2) (-1 / 2)) ∧
    ∃ circuit computed layout, Reading.parse "-R1|(C2||(L3+V4))" = .ok circuit ∧
      circuit.elements.length = 4 ∧
      LayoutSettings.oddComputed.Rel (HoldsWhole 100) .odd ∧
      circuit.layout .standard .oddComputed = .ok computed ∧
      circuit.layout .standard .odd = .ok layout ∧ computed.Rel HoldsHalf layout := by
  obtain ⟨onGrid, -, exact, computes⟩ := layout_keeps_half_units
  have parsed : Reading.parse "-R1|(C2||(L3+V4))" = .ok (.twoport [
      ⟨.series, .element ⟨.resistor, some "1"⟩⟩,
      ⟨.shunt, .parallel [.element ⟨.capacitor, some "2"⟩,
        .series [.element ⟨.inductor, some "3"⟩, .element ⟨.voltageSource, some "4"⟩]]⟩]) := by
    apply eq_ok_of_toOption
    decide +kernel
  have holds : ∀ number (count : Int),
      (Number.Binary64.ofFloat number).value? = some (count : Rat) → |(count : Rat)| ≤ 100 →
      HoldsWhole 100 number count :=
    fun _ count exact within => ⟨exact, Number.mem_wholes.mpr ⟨count, rfl⟩, within⟩
  have settled : LayoutSettings.oddComputed.Rel (HoldsWhole 100) .odd := {
    parallelSpacing := holds 15 15 (by decide +kernel) (by decide +kernel)
    shuntStub := holds 61 61 (by decide +kernel) (by decide +kernel)
    shuntLead := holds 7 7 (by decide +kernel) (by decide +kernel)
    railClearance := holds (-9) (-9) (by decide +kernel) (by decide +kernel)
    originX := holds 1 1 (by decide +kernel) (by decide +kernel)
    originY := holds 3 3 (by decide +kernel) (by decide +kernel)
    branchAlignment := rfl }
  have first : HoldsHalf 97.5 (195 / 2) := by
    refine ⟨?_, Number.mem_halves.mpr ⟨195, by norm_num⟩, by norm_num⟩
    rw [Number.IsExactly]
    decide +kernel
  have second : HoldsHalf (-0.5) (-1 / 2) := by
    refine ⟨?_, Number.mem_halves.mpr ⟨-1, by norm_num⟩, by norm_num⟩
    rw [Number.IsExactly]
    decide +kernel
  obtain ⟨layout, placed, nodes⟩ := onGrid _ _ _ parsed settled.isWhole
  obtain ⟨computed, same, computedPlaced, samePlaced, related⟩ :=
    computes _ _ _ _ 100 parsed settled le_rfl (by decide +kernel)
  exact ⟨⟨_, layout, parsed, settled.isWhole, placed, fun node isNode => (nodes node isNode).1⟩,
    ⟨first, second, exact _ _ _ _ first second⟩,
    _, computed, same, parsed, rfl, settled, computedPlaced, samePlaced, related⟩

end Schematic
