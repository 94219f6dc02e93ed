import Schematic.Proofs.Layout.Centred

/-!
# Roomy extents

With the standard symbols and no negative spacing, the ports of every part are
in the middle of its left and right edges, and there is some room between the
ports and around them.
-/

namespace Schematic

/-- The ports are in the middle of the edges of a box that is not too small. -/
structure Extent.IsRoomy (extent : Extent Rat) : Prop where
  leftPort : extent.leftPort = ⟨0, extent.height / 2⟩
  rightPort : extent.rightPort = ⟨extent.width, extent.height / 2⟩
  wide : 60 ≤ extent.width
  high : 20 ≤ extent.height

variable {settings : LayoutSettings Rat} {circuit : Circuit} {extent : Extent Rat}
  {extents : List (Extent Rat)}

theorem Extent.IsRoomy.isCentred {member : Extent Rat} (roomy : member.IsRoomy) :
    member.IsCentred where
  leftPort := roomy.leftPort
  rightPort := roomy.rightPort
  wide := by linarith [roomy.wide]
  high := by linarith [roomy.high]

theorem Extent.IsRoomy.isStraight {member : Extent Rat} (roomy : member.IsRoomy) :
    member.IsStraight where
  left := by rw [roomy.leftPort, Scalar.zero_eq]
  right := by rw [roomy.rightPort, roomy.leftPort]

theorem standard_isRoomy (element : Element) :
    ((Symbol.standard element.kind : Symbol Rat).extent element).IsRoomy := by
  obtain ⟨kind, identifier⟩ := element
  cases kind <;>
    constructor <;>
      norm_num [Symbol.extent, Symbol.standard, Symbol.centred, Symbol.centredPorts,
        Symbol.standardWidth]

theorem seriesExtent_isRoomy (measured : seriesExtent circuit extents = .ok extent)
    (roomy : ∀ member ∈ extents, member.IsRoomy) :
    extent.IsRoomy ∧ ∀ member ∈ extents, member.height ≤ extent.height := by
  have centred := fun member isMember => (roomy member isMember).isCentred
  obtain ⟨groupCentred, fits, highest, isHighest, -⟩ := seriesExtent_isCentred measured centred
  have firstWidth := List.single_le_sum (widths_nonneg centred) _ (List.mem_map_of_mem isHighest)
  rw [← seriesExtent_width measured] at firstWidth
  refine ⟨⟨groupCentred.leftPort, groupCentred.rightPort, ?_, ?_⟩, fits⟩
  · exact (roomy highest isHighest).wide.trans firstWidth
  · exact (roomy highest isHighest).high.trans (fits highest isHighest)

theorem parallelExtent_isRoomy (nonnegative : settings.IsNonnegative)
    (measured : parallelExtent settings circuit extents = .ok extent)
    (roomy : ∀ branch ∈ extents, branch.IsRoomy) :
    extent.IsRoomy ∧ (∀ branch ∈ extents, branch.width ≤ extent.width) ∧
      extent.height + settings.parallelSpacing = (branchPitches settings extents).sum := by
  have centred := fun branch isBranch => (roomy branch isBranch).isCentred
  obtain ⟨groupCentred, fits, ⟨widest, isWidest, sameWidth⟩, heights⟩ :=
    parallelExtent_isCentred nonnegative measured centred
  obtain ⟨index, found⟩ := List.mem_iff_getElem?.mp isWidest
  obtain ⟨top, -, bottom⟩ := startOf_branch nonnegative centred found
  have widestRoomy := roomy widest isWidest
  refine ⟨⟨groupCentred.leftPort, groupCentred.rightPort, ?_, ?_⟩, fits, heights⟩
  · exact sameWidth ▸ widestRoomy.wide
  · linarith [widestRoomy.high]

theorem Measure.Sized.isRoomy {measure : Measure Rat}
    (sized : measure.Sized SymbolLibrary.standard settings)
    (nonnegative : settings.IsNonnegative) : measure.extent.IsRoomy := by
  induction sized with
  | @element element symbol known =>
      obtain rfl : Symbol.standard element.kind = symbol := Option.some_inj.mp known
      exact standard_isRoomy element
  | series two parts measured ih =>
      exact (seriesExtent_isRoomy measured (List.forall_mem_map.mpr ih)).1
  | parallel two parts measured ih =>
      exact (parallelExtent_isRoomy nonnegative measured (List.forall_mem_map.mpr ih)).1

end Schematic
