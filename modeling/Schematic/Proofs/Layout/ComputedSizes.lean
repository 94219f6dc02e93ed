import Schematic.Proofs.Layout.Grid
import Schematic.Proofs.Layout.Related

/-!
# Sizes in double precision

With whole distances, every part of `n` elements has a size of at most `2 n - 1`
units, if no distance and no symbol is larger than one unit.  So double precision
computes the sizes of all parts exactly, as long as that many units fit.
-/

namespace Schematic

open Number (Scale wholes halves)

/-- The number of elements of the circuit. -/
def Extent.elementCount (extent : Extent Rat) : Nat :=
  extent.circuit.elements.length

/-- The number of elements of several circuits. -/
def elementCounts (extents : List (Extent Rat)) : Nat :=
  (extents.map Extent.elementCount).sum

/-- The extents of a part in both arithmetics, of one unit less than two for each of
its elements.  The unit that is left is for the gap to the next part. -/
structure Number.Scale.Sizes (scale : Scale) (computed : Extent Float) (exact : Extent Rat) :
    Prop where
  extents : computed.Rel (scale.Holds (2 * exact.elementCount - 1)) exact
  whole : exact.IsWhole
  inhabited : 1 ≤ exact.elementCount

/-- Symbols that are at most one unit wide and high in both arithmetics. -/
def Number.Scale.Symbols (scale : Scale) (computed : SymbolLibrary Float)
    (exact : SymbolLibrary Rat) : Prop :=
  ∀ element : Element, ∃ symbol exactSymbol, computed element.kind = some symbol ∧
    exact element.kind = some exactSymbol ∧
    scale.Sizes (symbol.extent element) (exactSymbol.extent element)

variable {scale : Scale} {computed : List (Extent Float)} {exact : List (Extent Rat)}

theorem elementCount_le {extent : Extent Rat} (isMember : extent ∈ exact) :
    extent.elementCount ≤ elementCounts exact :=
  List.le_sum_of_mem (List.mem_map_of_mem isMember)

theorem Number.Scale.Sizes.of_count {extent : Extent Float} {exactExtent : Extent Rat}
    {count : Nat} (same : exactExtent.elementCount = count) (inhabited : 1 ≤ count)
    (whole : exactExtent.IsWhole) (extents : extent.Rel (scale.Holds (2 * count - 1)) exactExtent) :
    scale.Sizes extent exactExtent := by
  subst same
  exact ⟨extents, whole, inhabited⟩

theorem Number.Scale.Sizes.mono {extent : Extent Float} {exactExtent : Extent Rat} {count : Nat}
    (sizes : scale.Sizes extent exactExtent) (few : exactExtent.elementCount ≤ count) :
    extent.Rel (scale.Holds (2 * count - 1)) exactExtent :=
  sizes.extents.mono fun _ _ holds => holds.mono (by omega)

section

variable (parts : List.Forall₂ scale.Sizes computed exact)

include parts

theorem parts_whole : ∀ part ∈ exact, part.IsWhole := by
  intro part isPart
  obtain ⟨_, sizes⟩ := exists_related parts isPart
  exact sizes.whole

theorem length_le_elementCounts : exact.length ≤ elementCounts exact := by
  rw [← List.length_map Extent.elementCount]
  refine List.length_le_sum_of_one_le _ (List.forall_mem_map.mpr fun part isPart => ?_)
  obtain ⟨_, sizes⟩ := exists_related parts isPart
  exact sizes.inhabited

/-- Every part has one unit less than two for each of its elements. -/
theorem sum_units :
    (exact.map fun part => 2 * part.elementCount - 1).sum + exact.length =
      2 * elementCounts exact := by
  induction parts with
  | nil => rfl
  | @cons _ part _ others first rest ih =>
      have inhabited := first.inhabited
      simp only [elementCounts, List.map_cons, List.sum_cons, List.length_cons] at ih ⊢
      omega

theorem parts_mono {count : Nat} (few : elementCounts exact ≤ count) :
    List.Forall₂ (Extent.Rel (scale.Holds (2 * count - 1))) computed exact := by
  induction parts with
  | nil => exact .nil
  | @cons _ part _ others first rest ih =>
      simp only [elementCounts, List.map_cons, List.sum_cons] at ih few
      exact .cons (first.mono (by omega)) (ih (by omega))

end

/-! ## Groups -/

section

variable (circuit : Circuit) {count : Nat} (parts : List.Forall₂ scale.Sizes computed exact)
  (counted : elementCounts exact = count)

include parts

theorem sum_sizes {size : Extent Float → Float} {exactSize : Extent Rat → Rat}
    (holds : ∀ extent exactExtent, scale.Sizes extent exactExtent →
      scale.Holds (2 * exactExtent.elementCount - 1) (size extent) (exactSize exactExtent))
    (room : 2 * elementCounts exact ≤ scale.room) :
    scale.Holds (2 * elementCounts exact - exact.length)
      (Scalar.sum (computed.map size)) (Scalar.sum (exact.map exactSize)) := by
  have units := sum_units parts
  have sum := Scale.sum_holds (List.forall₂_map_left_iff.mpr (parts.imp holds)) (by omega)
  exact sum.mono (by omega)

theorem one_le_of_parts (inhabited : exact ≠ []) : 1 ≤ elementCounts exact :=
  (List.length_pos_of_ne_nil inhabited).trans_le (length_le_elementCounts parts)

variable (elements : circuit.elements.length = count) (inhabited : exact ≠ [])
  (room : 6 * count ≤ scale.room)

include counted elements inhabited room

/-- A series group is as wide as all its members, and as high as the highest. -/
theorem seriesExtent_sizes : ∃ extent exactExtent,
    seriesExtent circuit computed = .ok extent ∧ seriesExtent circuit exact = .ok exactExtent ∧
      scale.Sizes extent exactExtent := by
  have positive := counted ▸ one_le_of_parts parts inhabited
  have wholes := parts_whole parts
  have uniform := parts_mono parts counted.le
  have sum := sum_sizes parts (fun _ _ sizes => sizes.extents.width) (by omega)
  have ascents : List.Forall₂ (scale.Holds (2 * count - 1)) (computed.map Extent.ascent)
      (exact.map Extent.ascent) :=
    List.rel_map (fun _ _ extents => extents.leftPort.y) uniform
  have descents : List.Forall₂ (scale.Holds (4 * count - 2)) (computed.map Extent.descent)
      (exact.map Extent.descent) := by
    refine List.rel_map (fun _ _ extents => ?_) uniform
    exact (extents.height.sub extents.leftPort.y (by omega)).mono (by omega)
  cases parts with
  | nil => exact absurd rfl inhabited
  | @cons _ exactFirst _ exactRest first rest =>
      have measured : seriesExtent circuit (exactFirst :: exactRest) = .ok _ := rfl
      obtain ⟨-, -, highest, isHighest, same⟩ := seriesExtent_hasCentredPorts measured
        fun member isMember => (wholes member isMember).toHasCentredPorts
      obtain ⟨_, extents⟩ := exists_related uniform isHighest
      obtain ⟨firstAscent, restAscents⟩ := List.forall₂_cons.mp ascents
      obtain ⟨firstDescent, restDescents⟩ := List.forall₂_cons.mp descents
      have width : scale.Holds (2 * count - 1) _ _ :=
        sum.mono (by simp only [List.length_cons]; omega)
      have ascent := Scale.largest_holds firstAscent restAscents
      have descent := Scale.largest_holds firstDescent restDescents
      have height := (ascent.add descent (by omega)).of_within (same ▸ extents.height.within)
      exact ⟨_, _, rfl, measured, .of_count elements positive
        (seriesExtent_isWhole measured wholes)
        ⟨rfl, width, height, ⟨scale.holds_zero _, ascent⟩, ⟨width, ascent⟩⟩⟩

/-- A parallel group is as wide as its widest branch, and as high as all of them
with the gaps between them. -/
theorem parallelExtent_sizes {computedSettings : LayoutSettings Float}
    {settings : LayoutSettings Rat} (distances : computedSettings.Rel (scale.Holds 1) settings)
    (whole : settings.IsWhole) : ∃ extent exactExtent,
    parallelExtent computedSettings circuit computed = .ok extent ∧
      parallelExtent settings circuit exact = .ok exactExtent ∧
      scale.Sizes extent exactExtent := by
  have positive := counted ▸ one_le_of_parts parts inhabited
  have units := sum_units parts
  have heights := sum_sizes parts (fun _ _ sizes => sizes.extents.height) (by omega)
  have wholes := parts_whole parts
  have widths : List.Forall₂ (scale.Holds (2 * count - 1)) (computed.map Extent.width)
      (exact.map Extent.width) :=
    List.rel_map (fun _ _ extents => extents.width) (parts_mono parts counted.le)
  cases parts with
  | nil => exact absurd rfl inhabited
  | @cons _ exactFirst computedRest exactRest first rest =>
      have measured : parallelExtent settings circuit (exactFirst :: exactRest) = .ok _ := rfl
      have isWhole := parallelExtent_isWhole whole.parallelSpacing measured wholes
      obtain ⟨firstWidth, restWidths⟩ := List.forall₂_cons.mp widths
      have width := Scale.largest_holds firstWidth restWidths
      rw [List.length_cons] at units heights
      have gaps : scale.Holds exactRest.length
          (computedSettings.parallelSpacing * Scalar.ofNat computedRest.length)
          (settings.parallelSpacing * Scalar.ofNat exactRest.length) := by
        rw [rest.length_eq]
        exact distances.parallelSpacing.mul_ofNat whole.parallelSpacing (by omega) (by omega)
      have sum := heights.add gaps (by omega)
      have height : scale.Holds (2 * count - 1) _ _ := sum.mono (by omega)
      have twice : scale.Holds (2 * count) _ _ := sum.mono (by omega)
      have port : scale.Holds (2 * count - 1) _ _ :=
        (twice.scalar_half isWhole.height (by omega)).mono (by omega)
      exact ⟨_, _, rfl, measured, .of_count elements positive isWhole
        ⟨rfl, width, height, ⟨scale.holds_zero _, port⟩, ⟨width, port⟩⟩⟩

end

/-! ## Twoports -/

/-- The links of a twoport in both arithmetics, with the extents of their targets. -/
structure Number.Scale.LinkSizes (scale : Scale) (computed : LinkKind × Extent Float)
    (exact : LinkKind × Extent Rat) : Prop where
  kind : computed.1 = exact.1
  target : scale.Sizes computed.2 exact.2

/-- The lines of a twoport of `count` elements in both arithmetics. -/
structure Number.Scale.Lines (scale : Scale) (count : Nat) (computed : TwoportLines Float)
    (exact : TwoportLines Rat) : Prop where
  signal : scale.Holds (2 * count) computed.signal exact.signal
  shuntTop : scale.Holds (2 * count) computed.shuntTop exact.shuntTop
  rail : scale.Holds (6 * count) computed.rail exact.rail

theorem zip_linkSizes (parts : List.Forall₂ scale.Sizes computed exact) (kinds : List LinkKind) :
    List.Forall₂ scale.LinkSizes (kinds.zip computed) (kinds.zip exact) ∧
      elementCounts ((kinds.zip exact).map Prod.snd) ≤ elementCounts exact := by
  induction parts generalizing kinds with
  | nil => exact ⟨by simp, by simp⟩
  | cons first rest ih =>
      cases kinds with
      | nil => exact ⟨.nil, Nat.zero_le _⟩
      | cons kind kinds =>
          obtain ⟨links, few⟩ := ih kinds
          exact ⟨.cons ⟨rfl, first⟩ links, Nat.add_le_add_left few _⟩

section

variable {computedLinks : List (LinkKind × Extent Float)} {links : List (LinkKind × Extent Rat)}
  {computedSettings : LayoutSettings Float} {settings : LayoutSettings Rat} {count : Nat}
  (distances : computedSettings.Rel (scale.Holds 1) settings)
  (related : List.Forall₂ scale.LinkSizes computedLinks links)

include distances in
theorem slotWidth_holds {computedLink : LinkKind × Extent Float} {link : LinkKind × Extent Rat}
    (sizes : scale.LinkSizes computedLink link) :
    scale.Holds (2 * link.2.elementCount - 1) (slotWidth computedSettings computedLink)
      (slotWidth settings link) := by
  have inhabited := sizes.target.inhabited
  unfold slotWidth
  rw [sizes.kind]
  split
  · exact sizes.target.extents.width
  · exact (distances.shuntStub.mono (by omega)).larger sizes.target.extents.height

variable (few : elementCounts (links.map Prod.snd) ≤ count)

include related few

theorem targetsOf_related (kind : LinkKind) :
    List.Forall₂ (Extent.Rel (scale.Holds (2 * count - 1))) (targetsOf kind computedLinks)
      (targetsOf kind links) := by
  have targets := parts_mono (List.rel_map (fun _ _ link => link.target) related) few
  rw [List.forall₂_map_left_iff, List.forall₂_map_right_iff] at targets
  have both : List.Forall₂ (fun computed exact => computed.1 = exact.1 ∧
      computed.2.Rel (scale.Holds (2 * count - 1)) exact.2) computedLinks links :=
    List.Forall₂.mp (fun _ _ link extents => ⟨link.kind, extents⟩) related targets
  refine List.rel_map (fun _ _ link => link.2) (List.rel_filter (fun _ _ link => ?_) both)
  simp only [link.1]

variable (positive : 1 ≤ count) (room : 6 * count ≤ scale.room)

include distances positive room

theorem twoportLines_holds :
    scale.Lines count (twoportLines computedSettings computedLinks)
      (twoportLines settings links) := by
  have series := targetsOf_related related few .series
  have shunts := targetsOf_related related few .shunt
  have signal : scale.Holds (2 * count - 1) _ _ :=
    Scale.largestOr_holds (List.rel_map (fun _ _ extents => extents.leftPort.y) series)
  have descents : List.Forall₂ (scale.Holds (4 * count - 2))
      ((targetsOf .series computedLinks).map Extent.descent)
      ((targetsOf .series links).map Extent.descent) := by
    refine List.rel_map (fun _ _ extents => ?_) series
    exact (extents.height.sub extents.leftPort.y (by omega)).mono (by omega)
  have lowest : scale.Holds (6 * count - 1) _ _ :=
    (signal.add (Scale.largestOr_holds descents) (by omega)).mono (by omega)
  have shuntTop : scale.Holds (2 * count) _ _ :=
    (signal.add distances.shuntLead (by omega)).mono (by omega)
  refine ⟨signal.mono (by omega), shuntTop, ?_⟩
  have rail : ∀ bottom exactBottom, scale.Holds (6 * count - 1) bottom exactBottom →
      scale.Holds (6 * count) (bottom + computedSettings.railClearance)
        (exactBottom + settings.railClearance) := fun _ _ bottom =>
    (bottom.add distances.railClearance (by omega)).mono (by omega)
  refine rail _ _ ?_
  generalize targetsOf .shunt computedLinks = computedShunts at shunts
  generalize targetsOf .shunt links = exactShunts at shunts
  cases shunts with
  | nil => exact lowest
  | cons first rest =>
      have longest := Scale.largest_holds first.width
        (List.rel_map (fun _ _ extents => extents.width) rest)
      exact lowest.larger ((shuntTop.add longest (by omega)).mono (by omega))

theorem twoportExtent_related (circuit : Circuit) :
    (twoportExtent computedSettings circuit computedLinks).Rel (scale.Holds (6 * count))
      (twoportExtent settings circuit links) := by
  have lines := twoportLines_holds distances related few positive room
  have targets : List.Forall₂ scale.Sizes (computedLinks.map Prod.snd) (links.map Prod.snd) :=
    List.rel_map (fun _ _ link => link.target) related
  have units := sum_units targets
  rw [List.map_map, Function.comp_def] at units
  have signal : scale.Holds (6 * count) _ _ := lines.signal.mono (by omega)
  have width : scale.Holds (6 * count)
      (Scalar.sum (computedLinks.map (slotWidth computedSettings)))
      (Scalar.sum (links.map (slotWidth settings))) := by
    have slots := Scale.sum_holds (List.forall₂_map_left_iff.mpr <|
      related.imp fun _ _ sizes => slotWidth_holds distances sizes) (by omega)
    exact slots.mono (by omega)
  exact ⟨rfl, width, lines.rail, ⟨scale.holds_zero _, signal⟩, ⟨width, signal⟩⟩

end

end Schematic
