import Schematic.Proofs.Layout.Frames
import Schematic.Proofs.Layout.Sizing

/-!
# Centred extents

If the ports of all symbols are in the middle of their left and right edges,
then so are the ports of every part.  This file says so for groups, and how the
members of a group fit into its box.
-/

namespace Schematic

/-- No distance in the settings is negative. -/
structure LayoutSettings.IsNonnegative (settings : LayoutSettings Rat) : Prop where
  parallelSpacing : 0 ≤ settings.parallelSpacing
  shuntStub : 0 ≤ settings.shuntStub
  shuntLead : 0 ≤ settings.shuntLead
  railClearance : 0 ≤ settings.railClearance

/-- A symbol of positive size with its ports at half its height. -/
structure Symbol.IsCentred (symbol : Symbol Rat) : Prop where
  wide : 0 < symbol.width
  high : 0 < symbol.height
  ports : symbol.ports = Symbol.centredPorts symbol.width symbol.height

/-- Every symbol in use is centred. -/
def SymbolLibrary.IsCentred (symbols : SymbolLibrary Rat) : Prop :=
  ∀ kind symbol, symbols kind = some symbol → symbol.IsCentred

/-- The ports are in the middle of the left and right edges. -/
structure Extent.IsCentred (extent : Extent Rat) : Prop where
  leftPort : extent.leftPort = ⟨0, extent.height / 2⟩
  rightPort : extent.rightPort = ⟨extent.width, extent.height / 2⟩
  wide : 0 ≤ extent.width
  high : 0 ≤ extent.height

/-- The ports are in the middle of the left and right edges of a box of any size. -/
structure Extent.HasCentredPorts (extent : Extent Rat) : Prop where
  left : extent.leftPort = ⟨0, extent.height / 2⟩
  right : extent.rightPort = ⟨extent.width, extent.height / 2⟩

theorem Extent.IsCentred.hasCentredPorts {extent : Extent Rat} (centred : extent.IsCentred) :
    extent.HasCentredPorts :=
  ⟨centred.leftPort, centred.rightPort⟩

theorem Symbol.IsCentred.extent {symbol : Symbol Rat} (centred : symbol.IsCentred)
    (element : Element) : (symbol.extent element).IsCentred where
  leftPort := by rw [Symbol.extent, centred.ports]; rfl
  rightPort := by rw [Symbol.extent, centred.ports]; rfl
  wide := centred.wide.le
  high := centred.high.le

variable {symbols : SymbolLibrary Rat} {settings : LayoutSettings Rat} {circuit : Circuit}
  {extent : Extent Rat} {extents : List (Extent Rat)}

theorem Extent.HasCentredPorts.ascent {member : Extent Rat} (centred : member.HasCentredPorts) :
    member.ascent = member.height / 2 := by
  rw [Extent.ascent, centred.left]

theorem Extent.HasCentredPorts.descent {member : Extent Rat} (centred : member.HasCentredPorts) :
    member.descent = member.height / 2 := by
  rw [Extent.descent, centred.left]
  exact sub_half member.height

theorem SymbolLibrary.standard_isCentred :
    (SymbolLibrary.standard : SymbolLibrary Rat).IsCentred := by
  intro kind symbol known
  obtain rfl : Symbol.standard kind = symbol := Option.some_inj.mp known
  cases kind <;> exact ⟨by decide +kernel, by decide +kernel, rfl⟩

/-! ## Series groups -/

theorem seriesExtent_width (measured : seriesExtent circuit extents = .ok extent) :
    extent.width = (extents.map Extent.width).sum := by
  cases extents with
  | nil => cases measured
  | cons first rest =>
      cases measured
      rw [Scalar.sum_eq]

theorem widths_nonneg (centred : ∀ member ∈ extents, member.IsCentred) :
    ∀ width ∈ extents.map Extent.width, 0 ≤ width :=
  List.forall_mem_map.mpr fun member isMember => (centred member isMember).wide

/-- A series group is as high as its highest member. -/
theorem seriesExtent_hasCentredPorts (measured : seriesExtent circuit extents = .ok extent)
    (centred : ∀ member ∈ extents, member.HasCentredPorts) :
    extent.HasCentredPorts ∧ (∀ member ∈ extents, member.height ≤ extent.height) ∧
      ∃ member ∈ extents, member.height = extent.height := by
  cases extents with
  | nil => cases measured
  | cons first rest =>
      have ascents : rest.map Extent.ascent = rest.map fun member => member.height / 2 :=
        List.map_congr_left fun member isMember =>
          (centred member (List.mem_cons_of_mem first isMember)).ascent
      have descents : rest.map Extent.descent = rest.map fun member => member.height / 2 :=
        List.map_congr_left fun member isMember =>
          (centred member (List.mem_cons_of_mem first isMember)).descent
      have firstCentred := centred first List.mem_cons_self
      cases measured
      simp only [firstCentred.ascent, firstCentred.descent, ascents, descents]
      obtain ⟨isHalf, bound⟩ :=
        Scalar.largest_spec (first.height / 2) (rest.map fun member => member.height / 2)
      rw [← List.map_cons (f := fun member : Extent Rat => member.height / 2)] at isHalf bound
      have memberBound : ∀ member ∈ first :: rest, member.height / 2 ≤
          Scalar.largest (first.height / 2) (rest.map fun member => member.height / 2) :=
        fun member isMember => bound (member.height / 2) (List.mem_map_of_mem isMember)
      obtain ⟨highest, isHighest, half⟩ := List.mem_map.mp isHalf
      refine ⟨⟨?_, ?_⟩, fun member isMember => ?_, highest, isHighest, ?_⟩
      · apply Point.eq_of_coordinates <;> simp
      · apply Point.eq_of_coordinates <;> simp
      · linarith [memberBound member isMember]
      · linarith

theorem seriesExtent_isCentred (measured : seriesExtent circuit extents = .ok extent)
    (centred : ∀ member ∈ extents, member.IsCentred) :
    extent.IsCentred ∧ (∀ member ∈ extents, member.height ≤ extent.height) ∧
      ∃ member ∈ extents, member.height = extent.height := by
  obtain ⟨ports, bound, highest, isHighest, same⟩ := seriesExtent_hasCentredPorts measured
    fun member isMember => (centred member isMember).hasCentredPorts
  refine ⟨⟨ports.left, ports.right, ?_, ?_⟩, bound, highest, isHighest, same⟩
  · rw [seriesExtent_width measured]
    exact List.sum_nonneg (widths_nonneg centred)
  · rw [← same]
    exact (centred highest isHighest).high

/-! ## Parallel groups -/

theorem sum_branchPitches (branches : List (Extent Rat)) :
    (branchPitches settings branches).sum =
      (branches.map Extent.height).sum + settings.parallelSpacing * branches.length := by
  induction branches with
  | nil => simp [branchPitches]
  | cons branch rest ih =>
      simp only [branchPitches, List.map_cons, List.sum_cons, List.length_cons] at ih ⊢
      rw [ih]
      push_cast
      linarith

theorem branchPitches_nonneg (nonnegative : settings.IsNonnegative)
    (centred : ∀ branch ∈ extents, branch.IsCentred) :
    ∀ pitch ∈ branchPitches settings extents, 0 ≤ pitch :=
  List.forall_mem_map.mpr fun branch isBranch =>
    add_nonneg (centred branch isBranch).high nonnegative.parallelSpacing

/-- A parallel group is as wide as its widest branch, and as high as all of them
with the gaps between them. -/
theorem parallelExtent_isCentred (nonnegative : settings.IsNonnegative)
    (measured : parallelExtent settings circuit extents = .ok extent)
    (centred : ∀ branch ∈ extents, branch.IsCentred) :
    extent.IsCentred ∧ (∀ branch ∈ extents, branch.width ≤ extent.width) ∧
      (∃ branch ∈ extents, branch.width = extent.width) ∧
      extent.height + settings.parallelSpacing = (branchPitches settings extents).sum := by
  cases extents with
  | nil => cases measured
  | cons first rest =>
      cases measured
      simp only [Scalar.sum_eq, Scalar.half_eq, Scalar.zero_eq, Scalar.ofNat_eq]
      obtain ⟨isWidth, bound⟩ := Scalar.largest_spec first.width (rest.map Extent.width)
      rw [← List.map_cons (f := Extent.width)] at isWidth bound
      have heights : 0 ≤ ((first :: rest).map Extent.height).sum :=
        List.sum_nonneg (List.forall_mem_map.mpr fun branch isBranch =>
          (centred branch isBranch).high)
      have gaps : 0 ≤ settings.parallelSpacing * (rest.length : Rat) :=
        mul_nonneg nonnegative.parallelSpacing (Nat.cast_nonneg _)
      refine ⟨⟨rfl, rfl, widths_nonneg centred _ isWidth, add_nonneg heights gaps⟩,
        fun branch isBranch => bound branch.width (List.mem_map_of_mem isBranch),
        List.mem_map.mp isWidth, ?_⟩
      rw [sum_branchPitches, List.length_cons]
      push_cast
      linarith

/-- The branches are stacked between the top and the bottom of their group. -/
theorem startOf_branch (nonnegative : settings.IsNonnegative)
    (centred : ∀ branch ∈ extents, branch.IsCentred) {index : Nat} {branch : Extent Rat}
    (found : extents[index]? = some branch) :
    0 ≤ startOf (branchPitches settings extents) index ∧
      (∀ later, index < later →
        startOf (branchPitches settings extents) index + branch.height ≤
          startOf (branchPitches settings extents) later) ∧
      startOf (branchPitches settings extents) index + branch.height +
        settings.parallelSpacing ≤ (branchPitches settings extents).sum := by
  have pitchesNonneg := branchPitches_nonneg nonnegative centred
  have pitch : (branchPitches settings extents)[index]? =
      some (branch.height + settings.parallelSpacing) := by
    simp [branchPitches, found]
  refine ⟨startOf_nonneg pitchesNonneg index, fun later before => ?_, ?_⟩
  · have gap := startOf_add_le pitchesNonneg pitch before
    linarith [nonnegative.parallelSpacing]
  · have whole := startOf_add_le_sum pitchesNonneg pitch
    linarith

/-- A branch that fits into its group keeps between the buses. -/
theorem branchIndent_bounds (alignment : BranchAlignment) {width : Rat} {branch : Extent Rat}
    (fits : branch.width ≤ width) :
    0 ≤ branchIndent alignment width branch ∧
      branchIndent alignment width branch + branch.width ≤ width := by
  cases alignment <;> simp only [branchIndent, Scalar.half_eq, Scalar.zero_eq] <;>
    constructor <;> linarith

theorem branchSlot_ports {branch : Extent Rat} (centred : branch.IsCentred) (corner : Point Rat) :
    BranchSlot.leftPort ⟨branch, corner⟩ = ⟨corner.x, corner.y + branch.height / 2⟩ ∧
      BranchSlot.rightPort ⟨branch, corner⟩ =
        ⟨corner.x + branch.width, corner.y + branch.height / 2⟩ := by
  simp [BranchSlot.leftPort, BranchSlot.rightPort, centred.leftPort, centred.rightPort]

/-! ## All parts -/

theorem Measure.Sized.isCentred {measure : Measure Rat} (sized : measure.Sized symbols settings)
    (centred : symbols.IsCentred) (nonnegative : settings.IsNonnegative) :
    measure.extent.IsCentred := by
  induction sized with
  | element known => exact (centred _ _ known).extent _
  | series two parts measured ih =>
      exact (seriesExtent_isCentred measured (List.forall_mem_map.mpr ih)).1
  | parallel two parts measured ih =>
      exact (parallelExtent_isCentred nonnegative measured (List.forall_mem_map.mpr ih)).1

end Schematic
