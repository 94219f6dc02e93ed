import Schematic.Proofs.Tiling.Tiles

/-!
# Level extents

If the ports of all symbols are level, anywhere on their left and right edges,
then so are the ports of every circuit that is measured, also of a circuit that
no reader makes.
-/

namespace Schematic

/-- A symbol of positive size with level ports on its left and right edges. -/
structure Symbol.IsLevel (symbol : Symbol Rat) : Prop where
  wide : 0 < symbol.width
  high : 0 < symbol.height
  ports : ∃ line, 0 ≤ line ∧ line ≤ symbol.height ∧
    symbol.ports = (⟨0, line⟩, ⟨symbol.width, line⟩)

/-- Every symbol in use is level. -/
def SymbolLibrary.IsLevel (symbols : SymbolLibrary Rat) : Prop :=
  ∀ kind symbol, symbols kind = some symbol → symbol.IsLevel

/-- The line through the ports crosses the box from its left edge to its right edge. -/
structure Extent.IsLevel (extent : Extent Rat) : Prop where
  straight : extent.IsStraight
  wide : 0 ≤ extent.width
  above : 0 ≤ extent.ascent
  below : 0 ≤ extent.descent

theorem Extent.ascent_add_descent (extent : Extent Rat) :
    extent.ascent + extent.descent = extent.height := by
  rw [ascent, descent, add_sub_cancel]

theorem Extent.IsLevel.high {extent : Extent Rat} (level : extent.IsLevel) : 0 ≤ extent.height :=
  extent.ascent_add_descent ▸ add_nonneg level.above level.below

theorem Symbol.IsCentred.isLevel {symbol : Symbol Rat} (centred : symbol.IsCentred) :
    symbol.IsLevel where
  wide := centred.wide
  high := centred.high
  ports := by
    have high := centred.high
    exact ⟨symbol.height / 2, by linarith, by linarith, centred.ports⟩

theorem SymbolLibrary.standard_isLevel :
    (SymbolLibrary.standard : SymbolLibrary Rat).IsLevel :=
  fun kind symbol known => (SymbolLibrary.standard_isCentred kind symbol known).isLevel

theorem LayoutSettings.standard_isNonnegative :
    (LayoutSettings.standard : LayoutSettings Rat).IsNonnegative :=
  ⟨by decide, by decide, by decide, by decide⟩

theorem Symbol.IsLevel.extent {symbol : Symbol Rat} (level : symbol.IsLevel) (element : Element) :
    (symbol.extent element).IsLevel := by
  obtain ⟨line, above, below, ports⟩ := level.ports
  have straight : symbol.IsStraight := ⟨line, ports⟩
  refine ⟨straight.extent element, level.wide.le, ?_, ?_⟩
  · simpa only [Extent.ascent, Symbol.extent, ports] using above
  · simpa only [Extent.descent, Symbol.extent, ports, sub_nonneg] using below

/-! ## Groups -/

variable {symbols : SymbolLibrary Rat} {settings : LayoutSettings Rat} {circuit : Circuit}
  {extent : Extent Rat} {extents : List (Extent Rat)}

theorem seriesExtent_isLevel (measured : seriesExtent circuit extents = .ok extent)
    (level : ∀ member ∈ extents, member.IsLevel) : extent.IsLevel := by
  have straight := seriesExtent_isStraight measured
  have width := seriesExtent_width measured
  cases extents with
  | nil => cases measured
  | cons first rest =>
      cases measured
      refine ⟨straight, ?_, ?_, ?_⟩
      · rw [width]
        exact List.sum_nonneg (List.forall_mem_map.mpr fun member isMember =>
          (level member isMember).wide)
      · obtain ⟨member, isMember, same⟩ := Scalar.exists_eq_largest Extent.ascent first rest
        simp only [Extent.ascent] at same ⊢
        exact same ▸ (level member isMember).above
      · obtain ⟨member, isMember, same⟩ := Scalar.exists_eq_largest Extent.descent first rest
        simp only [Extent.descent, add_sub_cancel_left] at same ⊢
        exact same ▸ (level member isMember).below

theorem parallelExtent_isLevel (nonnegative : settings.IsNonnegative)
    (measured : parallelExtent settings circuit extents = .ok extent)
    (level : ∀ branch ∈ extents, branch.IsLevel) : extent.IsLevel := by
  have straight := parallelExtent_isStraight measured
  cases extents with
  | nil => cases measured
  | cons first rest =>
      cases measured
      have heights : 0 ≤ ((first :: rest).map Extent.height).sum :=
        List.sum_nonneg (List.forall_mem_map.mpr fun branch isBranch =>
          (level branch isBranch).high)
      have gaps : 0 ≤ settings.parallelSpacing * (rest.length : Rat) :=
        mul_nonneg nonnegative.parallelSpacing (Nat.cast_nonneg _)
      refine ⟨straight, ?_, ?_, ?_⟩
      · obtain ⟨branch, isBranch, same⟩ := Scalar.exists_eq_largest Extent.width first rest
        exact same ▸ (level branch isBranch).wide
      all_goals
        simp only [Extent.ascent, Extent.descent, Scalar.half_eq, Scalar.sum_eq, Scalar.ofNat_eq]
        linarith

/-! ## Twoports -/

section

variable {rungs : List (LinkKind × Extent Rat)}

theorem slotWidth_nonneg (nonnegative : settings.IsNonnegative) {rung : LinkKind × Extent Rat}
    (level : rung.2.IsLevel) : 0 ≤ slotWidth settings rung := by
  obtain ⟨kind, target⟩ := rung
  cases kind with
  | series => exact level.wide
  | shunt =>
      simp only [slotWidth, Scalar.larger_eq]
      exact nonnegative.shuntStub.trans (le_max_left _ _)

theorem twoportExtent_isLevel (nonnegative : settings.IsNonnegative)
    (level : ∀ rung ∈ rungs, rung.2.IsLevel) (circuit : Circuit) :
    (twoportExtent settings circuit rungs).IsLevel := by
  have series : ∀ target ∈ targetsOf .series rungs, target.IsLevel :=
    fun target isTarget => level _ (mem_targetsOf.mp isTarget)
  refine ⟨⟨rfl, rfl⟩, ?_, ?_, ?_⟩
  · simp only [twoportExtent, Scalar.sum_eq]
    exact List.sum_nonneg (List.forall_mem_map.mpr fun rung isRung =>
      slotWidth_nonneg nonnegative (level rung isRung))
  · exact largestOr_nonneg (List.forall_mem_map.mpr fun target isTarget =>
      (series target isTarget).above)
  · have descents := largestOr_nonneg (List.forall_mem_map.mpr fun target isTarget =>
      (series target isTarget).below)
    simp only [Extent.descent, twoportExtent]
    linarith [@lowest_le_rail settings rungs nonnegative]

end

/-! ## Every circuit -/

mutual

theorem measure_isLevel (level : symbols.IsLevel) (nonnegative : settings.IsNonnegative) :
    (circuit : Circuit) → {measure : Measure Rat} →
    circuit.measure symbols settings = .ok measure →
    measure.extent.IsLevel ∧ ∀ part ∈ measure.parts, part.extent.IsLevel
  | .element element, measure, measured => by
      rw [Circuit.measure] at measured
      split at measured
      · cases measured
      · next known =>
        cases measured
        exact ⟨(level _ _ known).extent element, by simp [Measure.parts]⟩
  | .series members, measure, measured => by
      rw [Circuit.measure] at measured
      obtain ⟨parts, partsMeasured, measured⟩ := exists_of_bind_eq_ok measured
      obtain ⟨extent, extentMeasured, measured⟩ := exists_of_bind_eq_ok measured
      cases measured
      have levelParts := measureAll_isLevel level nonnegative members partsMeasured
      exact ⟨seriesExtent_isLevel extentMeasured (List.forall_mem_map.mpr levelParts),
        levelParts⟩
  | .parallel branches, measure, measured => by
      rw [Circuit.measure] at measured
      obtain ⟨parts, partsMeasured, measured⟩ := exists_of_bind_eq_ok measured
      obtain ⟨extent, extentMeasured, measured⟩ := exists_of_bind_eq_ok measured
      cases measured
      have levelParts := measureAll_isLevel level nonnegative branches partsMeasured
      exact ⟨parallelExtent_isLevel nonnegative extentMeasured (List.forall_mem_map.mpr levelParts),
        levelParts⟩
  | .twoport links, measure, measured => by
      rw [Circuit.measure] at measured
      obtain ⟨parts, partsMeasured, measured⟩ := exists_of_bind_eq_ok measured
      cases measured
      have levelParts := measureTargets_isLevel level nonnegative links partsMeasured
      refine ⟨twoportExtent_isLevel nonnegative (fun rung isRung => ?_) _, levelParts⟩
      exact List.forall_mem_map.mpr levelParts _ (List.of_mem_zip isRung).2
  | .link _, _, measured => by cases measured

theorem measureAll_isLevel (level : symbols.IsLevel) (nonnegative : settings.IsNonnegative) :
    (circuits : List Circuit) → {parts : List (Measure Rat)} →
    measureAll symbols settings circuits = .ok parts → ∀ part ∈ parts, part.extent.IsLevel
  | [], parts, measured => by
      cases measured
      simp
  | circuit :: rest, parts, measured => by
      rw [measureAll] at measured
      obtain ⟨first, firstMeasured, measured⟩ := exists_of_bind_eq_ok measured
      obtain ⟨others, othersMeasured, measured⟩ := exists_of_bind_eq_ok measured
      cases measured
      exact List.forall_mem_cons.mpr
        ⟨(measure_isLevel level nonnegative circuit firstMeasured).1,
          measureAll_isLevel level nonnegative rest othersMeasured⟩

theorem measureTargets_isLevel (level : symbols.IsLevel) (nonnegative : settings.IsNonnegative) :
    (links : List (Link Circuit)) → {parts : List (Measure Rat)} →
    measureTargets symbols settings links = .ok parts → ∀ part ∈ parts, part.extent.IsLevel
  | [], parts, measured => by
      cases measured
      simp
  | ⟨_, target⟩ :: rest, parts, measured => by
      rw [measureTargets] at measured
      obtain ⟨first, firstMeasured, measured⟩ := exists_of_bind_eq_ok measured
      obtain ⟨others, othersMeasured, measured⟩ := exists_of_bind_eq_ok measured
      cases measured
      exact List.forall_mem_cons.mpr
        ⟨(measure_isLevel level nonnegative target firstMeasured).1,
          measureTargets_isLevel level nonnegative rest othersMeasured⟩

end

end Schematic
