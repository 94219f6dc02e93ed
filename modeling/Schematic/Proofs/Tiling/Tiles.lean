import Schematic.Proofs.Connectivity.Twoport
import Schematic.Proofs.Tiling.Boxes

/-!
# Tiles

Each part of a circuit is placed in a tile of the circuit's own box.  This file
proves that the tiles of a group or a twoport are inside of its box and beside
each other, and that the wires between the parts keep out of the tiles.
-/

namespace Schematic

/-- Tiles that are inside of a box and beside each other, with wires that are
inside of the box and beside the tiles. -/
structure IsTiling (outer : Box Rat) (tiles : List (Box Rat)) (wires : Wire Rat → Prop) :
    Prop where
  nested : ∀ tile ∈ tiles, tile.Within outer
  beside : tiles.Pairwise Box.Beside
  wired : ∀ wire, wires wire → wire.box.Within outer
  clear : ∀ wire, wires wire → ∀ tile ∈ tiles, wire.box.Beside tile

section

variable {outer : Box Rat} {tiles : List (Box Rat)} {wires others : Wire Rat → Prop}

theorem IsTiling.mono (tiling : IsTiling outer tiles wires)
    (subset : ∀ wire, others wire → wires wire) : IsTiling outer tiles others where
  nested := tiling.nested
  beside := tiling.beside
  wired wire isWire := tiling.wired wire (subset wire isWire)
  clear wire isWire := tiling.clear wire (subset wire isWire)

theorem IsTiling.image (tiling : IsTiling outer tiles wires) (frame : Frame Rat) :
    IsTiling (frame.box outer) (tiles.map frame.box)
      fun wire => ∃ inner, wires inner ∧ wire = frame.image inner where
  nested := by
    intro tile isTile
    obtain ⟨inner, isInner, rfl⟩ := List.mem_map.mp isTile
    exact frame.box_within (tiling.nested inner isInner)
  beside := tiling.beside.map _ fun _ _ beside => frame.box_beside beside
  wired := by
    rintro _ ⟨inner, isInner, rfl⟩
    rw [Frame.image, Wire.box_frame]
    exact frame.box_within (tiling.wired inner isInner)
  clear := by
    rintro _ ⟨inner, isInner, rfl⟩ tile isTile
    obtain ⟨other, isOther, rfl⟩ := List.mem_map.mp isTile
    rw [Frame.image, Wire.box_frame]
    exact frame.box_beside (tiling.clear inner isInner other isOther)

/-! ## Rows of tiles -/

/-- Along an axis, a box keeps to the place of the member of a row at `index`. -/
def Box.InSlot (axis : Axis) (lengths : List Rat) (index : Nat) (box : Box Rat) : Prop :=
  startOf lengths index ≤ box.low axis ∧ box.high axis ≤ startOf lengths (index + 1)

variable {lengths : List Rat}

theorem Box.InSlot.beside {axis : Axis} (nonnegative : ∀ length ∈ lengths, 0 ≤ length)
    {index other : Nat} {first second : Box Rat} (isFirst : first.InSlot axis lengths index)
    (isSecond : second.InSlot axis lengths other) (different : index ≠ other) :
    first.Beside second := by
  rcases Nat.lt_or_gt_of_ne different with before | after
  · have gap := startOf_mono nonnegative (Nat.succ_le_of_lt before)
    exact ⟨axis, .inl ((isFirst.2.trans gap).trans isSecond.1)⟩
  · have gap := startOf_mono nonnegative (Nat.succ_le_of_lt after)
    exact ⟨axis, .inr ((isSecond.2.trans gap).trans isFirst.1)⟩

/-- Tiles in a row, with wires that avoid all of them, or that keep to one slot and
avoid the tile in it. -/
theorem isTiling_of_row (axis : Axis) (nonnegative : ∀ length ∈ lengths, 0 ≤ length)
    (inSlot : ∀ (index : Nat) tile, tiles[index]? = some tile →
      tile.InSlot axis lengths index ∧ tile.Within outer)
    (wired : ∀ wire, wires wire → wire.box.Within outer ∧
      ((∀ tile ∈ tiles, wire.box.Beside tile) ∨ ∃ (index : Nat) (tile : Box Rat),
        tiles[index]? = some tile ∧ wire.box.InSlot axis lengths index ∧
          wire.box.Beside tile)) :
    IsTiling outer tiles wires where
  nested := by
    intro tile isTile
    obtain ⟨index, found⟩ := List.mem_iff_getElem?.mp isTile
    exact (inSlot index tile found).2
  beside := by
    rw [List.pairwise_iff_getElem]
    intro index other indexLt otherLt before
    exact (inSlot index _ (List.getElem?_eq_getElem indexLt)).1.beside nonnegative
      (inSlot other _ (List.getElem?_eq_getElem otherLt)).1 before.ne
  wired wire isWire := (wired wire isWire).1
  clear := by
    intro wire isWire tile isTile
    obtain ⟨-, all | ⟨index, own, found, place, beside⟩⟩ := wired wire isWire
    · exact all tile isTile
    · -- The wire avoids the tile of its own slot, and the slots keep it from the other tiles.
      obtain ⟨other, otherFound⟩ := List.mem_iff_getElem?.mp isTile
      by_cases same : index = other
      · obtain rfl : own = tile := Option.some_inj.mp (found.symm.trans (same ▸ otherFound))
        exact beside
      · exact place.beside nonnegative (inSlot other tile otherFound).1 same

end

/-! ## Groups -/

/-- The box of an extent in its own frame. -/
def Extent.box (extent : Extent Rat) : Box Rat :=
  ⟨0, 0, extent.width, extent.height⟩

theorem Extent.box_moved (extent : Extent Rat) (x y : Rat) :
    extent.box.moved ⟨x, y⟩ = ⟨x, y, x + extent.width, y + extent.height⟩ := by
  simp [box, Box.moved]

def partTiles (settings : LayoutSettings Rat) (group : Extent Rat) (parts : List (Extent Rat)) :
    List (Box Rat) :=
  parts.mapIdx fun index part => part.box.moved (partCorner settings group parts index part)

section

variable {settings : LayoutSettings Rat} {group : Extent Rat} {parts : List (Extent Rat)}
  {circuits : List Circuit}

theorem partTiles_getElem? {index : Nat} {tile : Box Rat} :
    (partTiles settings group parts)[index]? = some tile ↔ ∃ part, parts[index]? = some part ∧
      part.box.moved (partCorner settings group parts index part) = tile := by
  rw [partTiles, List.getElem?_mapIdx, Option.map_eq_some_iff]

theorem mem_partTiles {index : Nat} {part : Extent Rat} (found : parts[index]? = some part) :
    part.box.moved (partCorner settings group parts index part) ∈
      partTiles settings group parts :=
  List.mem_of_getElem? (partTiles_getElem?.mpr ⟨part, found, rfl⟩)

theorem exists_first_last {β : Type} {members : List β} (nonempty : members ≠ []) :
    (∃ first, members[0]? = some first) ∧
      ∃ index last, members[index]? = some last ∧ index + 1 = members.length := by
  have positive := List.length_pos_iff.mpr nonempty
  exact ⟨⟨_, List.getElem?_eq_getElem positive⟩, members.length - 1, _,
    List.getElem?_eq_getElem (by omega), by omega⟩

theorem seriesTile (measured : seriesExtent (.series circuits) parts = .ok group)
    (centred : ∀ part ∈ parts, part.IsCentred) {index : Nat} {part : Extent Rat}
    (found : parts[index]? = some part) :
    part.box.moved (partCorner settings group parts index part) =
      ⟨startOf (parts.map Extent.width) index, group.height / 2 - part.height / 2,
        startOf (parts.map Extent.width) (index + 1), group.height / 2 + part.height / 2⟩ := by
  have foundWidth : (parts.map Extent.width)[index]? = some part.width := by simp [found]
  have groupCentred := (seriesExtent_isCentred measured centred).1
  simp only [partCorner, seriesExtent_circuit measured, memberCorner, groupCentred.leftPort,
    (centred part (List.mem_of_getElem? found)).leftPort, Extent.box_moved, startOf_succ foundWidth]
  congr 1
  linarith

/-- The members of a series group fill its box from left to right. -/
theorem isTiling_series (measured : seriesExtent (.series circuits) parts = .ok group)
    (centred : ∀ part ∈ parts, part.IsCentred) :
    IsTiling group.box (partTiles settings group parts) (fun _ => False) ∧
      group.box.Touched (partTiles settings group parts) := by
  obtain ⟨-, fits, highest, isHighest, sameHeight⟩ := seriesExtent_isCentred measured centred
  have nonnegative := widths_nonneg centred
  have whole : startOf (parts.map Extent.width) parts.length = group.width := by
    rw [seriesExtent_width measured, ← startOf_length, List.length_map]
  constructor
  · refine isTiling_of_row .horizontal nonnegative ?_ fun _ isWire => isWire.elim
    intro index tile foundTile
    obtain ⟨part, found, rfl⟩ := partTiles_getElem?.mp foundTile
    have last := startOf_mono nonnegative (List.getElem?_eq_some_iff.mp found).1
    have low := fits part (List.mem_of_getElem? found)
    rw [seriesTile measured centred found, Box.within_iff]
    exact ⟨⟨le_rfl, le_rfl⟩, ⟨startOf_nonneg nonnegative index, last.trans whole.le⟩,
      by simp only [Extent.box]; linarith, by simp only [Extent.box]; linarith⟩
  · obtain ⟨⟨first, foundFirst⟩, index, last, foundLast, isLast⟩ :=
      exists_first_last (List.ne_nil_of_mem isHighest)
    obtain ⟨middle, foundHighest⟩ := List.mem_iff_getElem?.mp isHighest
    intro axis
    cases axis with
    | horizontal =>
        refine ⟨⟨_, mem_partTiles foundFirst, ?_⟩, _, mem_partTiles foundLast, ?_⟩
        · rw [seriesTile measured centred foundFirst]
          exact startOf_zero (parts.map Extent.width)
        · rw [seriesTile measured centred foundLast, isLast]
          exact whole
    | vertical =>
        refine ⟨⟨_, mem_partTiles foundHighest, ?_⟩, _, mem_partTiles foundHighest, ?_⟩ <;>
          rw [seriesTile measured centred foundHighest, sameHeight]
        · exact sub_self _
        · exact add_halves _

theorem parallelTile (isParallel : group.circuit = .parallel circuits) {index : Nat}
    {part : Extent Rat} :
    part.box.moved (partCorner settings group parts index part) =
      ⟨branchIndent settings.branchAlignment group.width part,
        startOf (branchPitches settings parts) index,
        branchIndent settings.branchAlignment group.width part + part.width,
        startOf (branchPitches settings parts) index + part.height⟩ := by
  simp only [partCorner, isParallel, branchCorner, Extent.box_moved]

def IsGroupWire (settings : LayoutSettings Rat) (group : Extent Rat) (parts : List (Extent Rat))
    (wire : Wire Rat) : Prop :=
  ∃ side, GroupWire group (branchSlots settings group.width Scalar.zero parts) side wire

variable (nonnegative : settings.IsNonnegative)
  (measured : parallelExtent settings (.parallel circuits) parts = .ok group)
  (centred : ∀ part ∈ parts, part.IsCentred)

include nonnegative measured centred in
theorem parallelTile_within {index : Nat} {part : Extent Rat} (found : parts[index]? = some part) :
    (part.box.moved (partCorner settings group parts index part)).InSlot .vertical
        (branchPitches settings parts) index ∧
      (part.box.moved (partCorner settings group parts index part)).Within group.box := by
  obtain ⟨-, narrow, -, heights⟩ := parallelExtent_isCentred nonnegative measured centred
  obtain ⟨top, next, bottom⟩ := startOf_branch nonnegative centred found
  obtain ⟨left, right⟩ := branchIndent_bounds settings.branchAlignment
    (narrow part (List.mem_of_getElem? found))
  rw [parallelTile (parallelExtent_circuit measured), Box.within_iff]
  refine ⟨⟨le_rfl, next (index + 1) (Nat.lt_succ_self index)⟩, ⟨left, right⟩, top, ?_⟩
  simp only [Extent.box]
  linarith

include nonnegative measured centred in
/-- The taps of a bus are between the top and the bottom of its group. -/
theorem tap_bounds {port : BranchSlot Rat → Point Rat}
    (isPort : port = BranchSlot.leftPort ∨ port = BranchSlot.rightPort) {tap : Rat}
    (isTap : tap ∈ busTaps group.leftPort.y
      ((branchSlots settings group.width Scalar.zero parts).map fun slot => (port slot).y)) :
    0 ≤ tap ∧ tap ≤ group.height := by
  obtain ⟨groupCentred, -, -, heights⟩ := parallelExtent_isCentred nonnegative measured centred
  have high := groupCentred.high
  rcases exists_tap groupCentred centred isPort isTap with rfl | ⟨index, branch, found, rfl⟩
  · constructor <;> linarith
  · have branchHigh := (centred branch (List.mem_of_getElem? found)).high
    obtain ⟨top, -, bottom⟩ := startOf_branch nonnegative centred found
    constructor <;> linarith

include nonnegative measured centred in
/-- A stub is at the height of its branch, to the left or to the right of it. -/
theorem stub_clear {index : Nat} {part : Extent Rat} (found : parts[index]? = some part)
    {left right : Rat} (ordered : left ≤ right) (inside : 0 ≤ left ∧ right ≤ group.width)
    (outside : right ≤ branchIndent settings.branchAlignment group.width part ∨
      branchIndent settings.branchAlignment group.width part + part.width ≤ left) :
    let height := startOf (branchPitches settings parts) index + part.height / 2
    let stub : Wire Rat := ⟨⟨left, height⟩, ⟨right, height⟩⟩
    stub.box.Within group.box ∧ ∃ (index : Nat) (tile : Box Rat),
      (partTiles settings group parts)[index]? = some tile ∧
        stub.box.InSlot .vertical (branchPitches settings parts) index ∧ stub.box.Beside tile := by
  intro height stub
  obtain ⟨place, within⟩ := parallelTile_within nonnegative measured centred found
  have high := (centred part (List.mem_of_getElem? found)).high
  have foundTile := (@partTiles_getElem? settings group parts index _).mpr ⟨part, found, rfl⟩
  rw [parallelTile (parallelExtent_circuit measured)] at place within foundTile
  obtain ⟨-, top, bottom⟩ := Box.within_iff.mp within
  have box : stub.box = ⟨left, height, right, height⟩ := Wire.box_level ordered height
  simp only [Box.InSlot, Box.low, Box.high] at place top bottom
  rw [box, Box.within_iff]
  refine ⟨⟨inside, ?_⟩, index, _, foundTile, ?_, .horizontal, outside⟩ <;>
    simp only [Box.InSlot, Box.low, Box.high, height] <;> constructor <;> linarith

include nonnegative measured centred in
/-- A bus is on the left or on the right edge of its group. -/
theorem bus_clear {port : BranchSlot Rat → Point Rat}
    (isPort : port = BranchSlot.leftPort ∨ port = BranchSlot.rightPort) {x top bottom : Rat}
    (isEdge : x = 0 ∨ x = group.width)
    (isTop : top ∈ busTaps group.leftPort.y
      ((branchSlots settings group.width Scalar.zero parts).map fun slot => (port slot).y))
    (isBottom : bottom ∈ busTaps group.leftPort.y
      ((branchSlots settings group.width Scalar.zero parts).map fun slot => (port slot).y)) :
    (Wire.mk ⟨x, top⟩ ⟨x, bottom⟩).box.Within group.box ∧
      ∀ tile ∈ partTiles settings group parts, (Wire.mk ⟨x, top⟩ ⟨x, bottom⟩).box.Beside tile := by
  have wide := (parallelExtent_isCentred nonnegative measured centred).1.wide
  have side : 0 ≤ x ∧ x ≤ group.width := by
    rcases isEdge with rfl | rfl
    · exact ⟨le_rfl, wide⟩
    · exact ⟨wide, le_rfl⟩
  constructor
  · apply Wire.box_within
    simp only [Wire.ends, List.mem_cons, List.not_mem_nil, or_false, forall_eq_or_imp, forall_eq]
    exact ⟨Box.contains_iff.mpr ⟨side, tap_bounds nonnegative measured centred isPort isTop⟩,
      Box.contains_iff.mpr ⟨side, tap_bounds nonnegative measured centred isPort isBottom⟩⟩
  · intro tile isTile
    obtain ⟨index, foundTile⟩ := List.mem_iff_getElem?.mp isTile
    obtain ⟨part, found, rfl⟩ := partTiles_getElem?.mp foundTile
    obtain ⟨left, right⟩ := (parallelTile_within nonnegative measured centred found).2 .horizontal
    rcases isEdge with rfl | rfl
    · exact ⟨.horizontal, .inl ((max_self _).le.trans left)⟩
    · exact ⟨.horizontal, .inr (right.trans (min_self _).ge)⟩

include nonnegative measured centred in
/-- The wires of a parallel group are inside of it and keep out of its branches. -/
theorem groupWire_clear {wire : Wire Rat} (isWire : IsGroupWire settings group parts wire) :
    wire.box.Within group.box ∧
      ((∀ tile ∈ partTiles settings group parts, wire.box.Beside tile) ∨
        ∃ (index : Nat) (tile : Box Rat), (partTiles settings group parts)[index]? = some tile ∧
          wire.box.InSlot .vertical (branchPitches settings parts) index ∧
            wire.box.Beside tile) := by
  have narrow := (parallelExtent_isCentred nonnegative measured centred).2.1
  obtain ⟨side, isWire⟩ := isWire
  cases isWire with
  | leftStub isSlot =>
      obtain ⟨index, branch, found, rfl⟩ := mem_branchSlots.mp isSlot
      have isBranch := List.mem_of_getElem? found
      have wide := (centred branch isBranch).wide
      obtain ⟨left, right⟩ :=
        branchIndent_bounds settings.branchAlignment (narrow branch isBranch)
      rw [(branchSlot_ports (centred branch isBranch) _).1, branchCorner]
      exact (stub_clear nonnegative measured centred found left ⟨le_rfl, by linarith⟩
        (.inl le_rfl)).imp_right .inr
  | rightStub isSlot =>
      obtain ⟨index, branch, found, rfl⟩ := mem_branchSlots.mp isSlot
      have isBranch := List.mem_of_getElem? found
      have wide := (centred branch isBranch).wide
      obtain ⟨left, right⟩ :=
        branchIndent_bounds settings.branchAlignment (narrow branch isBranch)
      rw [(branchSlot_ports (centred branch isBranch) _).2, branchCorner]
      exact (stub_clear nonnegative measured centred found right ⟨by linarith, le_rfl⟩
        (.inr le_rfl)).imp_right .inr
  | leftBus isTop isBottom =>
      exact (bus_clear nonnegative measured centred (.inl rfl) (.inl rfl) isTop
        isBottom).imp_right .inl
  | rightBus isTop isBottom =>
      exact (bus_clear nonnegative measured centred (.inr rfl) (.inr rfl) isTop
        isBottom).imp_right .inl

include nonnegative measured centred in
/-- The branches of a parallel group fill its box from top to bottom. -/
theorem isTiling_parallel :
    IsTiling group.box (partTiles settings group parts) (IsGroupWire settings group parts) ∧
      group.box.Touched (partTiles settings group parts) := by
  obtain ⟨-, -, ⟨widest, isWidest, sameWidth⟩, heights⟩ :=
    parallelExtent_isCentred nonnegative measured centred
  have isParallel := parallelExtent_circuit measured
  constructor
  · refine isTiling_of_row .vertical (branchPitches_nonneg nonnegative centred) ?_
      fun wire isWire => groupWire_clear nonnegative measured centred isWire
    intro index tile foundTile
    obtain ⟨part, found, rfl⟩ := partTiles_getElem?.mp foundTile
    exact parallelTile_within nonnegative measured centred found
  · obtain ⟨⟨first, foundFirst⟩, index, last, foundLast, isLast⟩ :=
      exists_first_last (List.ne_nil_of_mem isWidest)
    obtain ⟨middle, foundWidest⟩ := List.mem_iff_getElem?.mp isWidest
    have lastPitch : (branchPitches settings parts)[index]? =
        some (last.height + settings.parallelSpacing) := by
      simp [branchPitches, foundLast]
    -- The pitch of a branch includes the gap behind it, which the last branch does not need.
    have whole : startOf (branchPitches settings parts) index + last.height = group.height := by
      have finish := startOf_succ lastPitch
      have count : (branchPitches settings parts).length = parts.length := List.length_map _
      rw [isLast, ← count, startOf_length] at finish
      linarith
    intro axis
    cases axis with
    | horizontal =>
        refine ⟨⟨_, mem_partTiles foundWidest, ?_⟩, _, mem_partTiles foundWidest, ?_⟩ <;>
          rw [parallelTile isParallel] <;> cases settings.branchAlignment <;>
            simp [branchIndent, sameWidth, Box.low, Box.high, Extent.box]
    | vertical =>
        refine ⟨⟨_, mem_partTiles foundFirst, ?_⟩, _, mem_partTiles foundLast, ?_⟩ <;>
          rw [parallelTile isParallel]
        · exact startOf_zero (branchPitches settings parts)
        · exact whole

end

/-! ## Twoports -/

/-- The tile of the target of a link of a twoport. -/
def rungTile (settings : LayoutSettings Rat) (rungs : List (LinkKind × Extent Rat)) (index : Nat)
    (rung : LinkKind × Extent Rat) : Box Rat :=
  let slot := slotAt settings rungs index rung
  let lines := twoportLines settings rungs
  match rung.1 with
  | .series => rung.2.box.moved ⟨slot.start, lines.signal - rung.2.leftPort.y⟩
  | .shunt => rung.2.box.transposed.moved ⟨slot.middle - rung.2.leftPort.y, lines.shuntTop⟩

def rungTiles (settings : LayoutSettings Rat) (rungs : List (LinkKind × Extent Rat)) :
    List (Box Rat) :=
  rungs.mapIdx (rungTile settings rungs)

section

variable {settings : LayoutSettings Rat} {rungs : List (LinkKind × Extent Rat)} {index : Nat}
  {target : Extent Rat} {rung : LinkKind × Extent Rat}
  (nonnegative : settings.IsNonnegative) (centred : ∀ rung ∈ rungs, rung.2.IsCentred)

theorem rungTile_series (targetCentred : target.IsCentred) :
    rungTile settings rungs index (.series, target) =
      ⟨startOf (rungs.map (slotWidth settings)) index,
        (twoportLines settings rungs).signal - target.height / 2,
        startOf (rungs.map (slotWidth settings)) index + target.width,
        (twoportLines settings rungs).signal + target.height / 2⟩ := by
  simp only [rungTile, slotAt, targetCentred.leftPort, Extent.box_moved]
  congr 1
  linarith

theorem rungTile_shunt (targetCentred : target.IsCentred) :
    rungTile settings rungs index (.shunt, target) =
      ⟨(slotAt settings rungs index (.shunt, target)).middle - target.height / 2,
        (twoportLines settings rungs).shuntTop,
        (slotAt settings rungs index (.shunt, target)).middle + target.height / 2,
        (twoportLines settings rungs).shuntTop + target.width⟩ := by
  simp only [rungTile, targetCentred.leftPort, Box.moved, Box.transposed, Extent.box, add_zero]
  congr 1
  linarith

theorem slotWidth_bounds (targetCentred : rung.2.IsCentred) :
    0 ≤ slotWidth settings rung ∧ (rung.1 = .shunt → rung.2.height ≤ slotWidth settings rung) := by
  obtain ⟨kind, target⟩ := rung
  have high := targetCentred.high
  cases kind with
  | series => exact ⟨targetCentred.wide, nofun⟩
  | shunt =>
      simp only [slotWidth, Scalar.larger_eq]
      exact ⟨high.trans (le_max_right _ _), fun _ => le_max_right _ _⟩

include centred in
theorem slotWidths_nonneg : ∀ width ∈ rungs.map (slotWidth settings), 0 ≤ width :=
  List.forall_mem_map.mpr fun rung isRung => (slotWidth_bounds (centred rung isRung)).1

theorem largestOr_nonneg {values : List Rat} (nonnegative : ∀ value ∈ values, 0 ≤ value) :
    0 ≤ Scalar.largestOr Scalar.zero values := by
  cases values with
  | nil => rfl
  | cons first rest => exact nonnegative _ (Scalar.largest_spec first rest).1

include centred in
theorem half_heights : (∀ ascent ∈ (targetsOf .series rungs).map Extent.ascent, 0 ≤ ascent) ∧
    ∀ descent ∈ (targetsOf .series rungs).map Extent.descent, 0 ≤ descent := by
  have half : ∀ target ∈ targetsOf .series rungs, target.IsCentred ∧ 0 ≤ target.height / 2 := by
    intro target isTarget
    have targetCentred := centred _ (mem_targetsOf.mp isTarget)
    exact ⟨targetCentred, div_nonneg targetCentred.high (by norm_num)⟩
  constructor <;> refine List.forall_mem_map.mpr fun target isTarget => ?_
  · rw [(half target isTarget).1.hasCentredPorts.ascent]
    exact (half target isTarget).2
  · rw [(half target isTarget).1.hasCentredPorts.descent]
    exact (half target isTarget).2

include nonnegative centred in
/-- The signal line is between the top of a twoport and its rail. -/
theorem signal_bounds : 0 ≤ (twoportLines settings rungs).signal ∧
    (twoportLines settings rungs).signal ≤ (twoportLines settings rungs).rail := by
  obtain ⟨ascents, descents⟩ := half_heights centred
  have below := largestOr_nonneg descents
  exact ⟨largestOr_nonneg ascents, by linarith [@lowest_le_rail settings rungs nonnegative]⟩

include nonnegative centred in
/-- A target is in its own slot, between the top of the twoport and its rail. -/
theorem rungTile_within (circuit : Circuit) (found : rungs[index]? = some rung) :
    (rungTile settings rungs index rung).InSlot .horizontal (rungs.map (slotWidth settings))
        index ∧
      (rungTile settings rungs index rung).Within (twoportExtent settings circuit rungs).box := by
  have isRung := List.mem_of_getElem? found
  have targetCentred := centred rung isRung
  have widths := @slotWidths_nonneg settings rungs centred
  have foundWidth : (rungs.map (slotWidth settings))[index]? = some (slotWidth settings rung) := by
    simp [found]
  have finish := startOf_succ foundWidth
  have first := startOf_nonneg widths index
  have last := startOf_add_le_sum widths foundWidth
  have wide := targetCentred.wide
  have high := targetCentred.high
  obtain ⟨lineLow, -⟩ := signal_bounds nonnegative centred
  rw [Box.within_iff]
  simp only [Box.InSlot, Box.low, Box.high, Extent.box, twoportExtent, Scalar.sum_eq, finish]
  obtain ⟨kind, target⟩ := rung
  cases kind with
  | series =>
      have isTarget := mem_targetsOf.mpr isRung
      have above := le_largestOr (List.mem_map_of_mem (f := Extent.ascent) isTarget)
      have below := series_above_rail nonnegative isRung
      rw [targetCentred.hasCentredPorts.ascent] at above
      rw [targetCentred.hasCentredPorts.descent] at below
      change _ ≤ (twoportLines settings rungs).signal at above
      simp only [slotWidth] at last ⊢
      rw [rungTile_series targetCentred]
      refine ⟨⟨le_rfl, le_rfl⟩, ⟨first, last⟩, ?_, below⟩
      linarith
  | shunt =>
      have below := shunt_above_rail nonnegative isRung
      have lead := @signal_le_shuntTop settings rungs nonnegative
      have fits := (@slotWidth_bounds settings _ targetCentred).2 rfl
      rw [rungTile_shunt targetCentred]
      simp only [slotAt, LinkSlot.middle, Scalar.half_eq] at fits ⊢
      refine ⟨⟨?_, ?_⟩, ⟨?_, ?_⟩, ?_, below⟩ <;> linarith

omit settings in
theorem stop_bounds {slot : LinkSlot Rat} (wide : 0 ≤ slot.width) {x : Rat}
    (isStop : slot.IsStop x) : slot.start ≤ x ∧ x ≤ slot.finish := by
  simp only [LinkSlot.IsStop, LinkSlot.middle, LinkSlot.finish, Scalar.half_eq] at isStop ⊢
  rcases isStop with rfl | rfl | rfl <;> constructor <;> linarith

omit settings in
theorem rungWire_stops {lines : TwoportLines Rat} {slot : LinkSlot Rat} {grounded : Bool}
    {wire : Wire Rat} (isWire : RungWire lines slot grounded wire) :
    ∀ point ∈ wire.ends, slot.IsStop point.x := by
  have isMiddle : slot.IsStop slot.middle := .inr (.inl rfl)
  cases isWire with
  | upper => simpa [Wire.ends] using isMiddle
  | lower => simpa [Wire.ends] using isMiddle
  | signal _ isFirst isSecond _ => simpa [Wire.ends] using ⟨isFirst, isSecond⟩
  | rail isFirst isSecond _ => simpa [Wire.ends] using ⟨isFirst, isSecond⟩

include nonnegative centred in
/-- A wire in the slot of a target is above the target or below it. -/
theorem rungWire_heights (found : rungs[index]? = some rung) {grounded : Bool} {wire : Wire Rat}
    (isWire : RungWire (twoportLines settings rungs) (slotAt settings rungs index rung) grounded
      wire) :
    (∀ point ∈ wire.ends, 0 ≤ point.y ∧ point.y ≤ (twoportLines settings rungs).rail) ∧
      ((∀ point ∈ wire.ends, point.y ≤ (rungTile settings rungs index rung).top) ∨
        ∀ point ∈ wire.ends, (rungTile settings rungs index rung).bottom ≤ point.y) := by
  have isRung := List.mem_of_getElem? found
  have targetCentred := centred rung isRung
  have wide := targetCentred.wide
  obtain ⟨lineLow, lineHigh⟩ := signal_bounds nonnegative centred
  have lead := @signal_le_shuntTop settings rungs nonnegative
  obtain ⟨-, -, bottom⟩ := Box.within_iff.mp
    (rungTile_within nonnegative centred (.twoport []) found).2
  obtain ⟨kind, target⟩ := rung
  simp only [Extent.box, twoportExtent] at bottom
  cases isWire with
  | upper isShunt =>
      obtain rfl : kind = .shunt := isShunt
      have above := shunt_above_rail nonnegative isRung
      rw [rungTile_shunt targetCentred]
      simp only [Wire.ends, List.mem_cons, List.not_mem_nil, or_false, forall_eq_or_imp, forall_eq]
      exact ⟨⟨⟨lineLow, lineHigh⟩, by linarith, by linarith⟩, .inl ⟨lead, le_rfl⟩⟩
  | lower isShunt =>
      obtain rfl : kind = .shunt := isShunt
      have above := shunt_above_rail nonnegative isRung
      rw [rungTile_shunt targetCentred]
      simp only [Wire.ends, List.mem_cons, List.not_mem_nil, or_false, forall_eq_or_imp, forall_eq]
      exact ⟨⟨⟨add_nonneg (lineLow.trans lead) wide, above⟩, by linarith, le_rfl⟩,
        .inr ⟨le_rfl, above⟩⟩
  | signal isShunt =>
      obtain rfl : kind = .shunt := isShunt
      rw [rungTile_shunt targetCentred]
      simp only [Wire.ends, List.mem_cons, List.not_mem_nil, or_false, forall_eq_or_imp, forall_eq]
      exact ⟨⟨⟨lineLow, lineHigh⟩, lineLow, lineHigh⟩, .inl ⟨lead, lead⟩⟩
  | rail =>
      simp only [Wire.ends, List.mem_cons, List.not_mem_nil, or_false, forall_eq_or_imp, forall_eq]
      exact ⟨⟨⟨by linarith, le_rfl⟩, by linarith, le_rfl⟩, .inr ⟨bottom, bottom⟩⟩

def IsRungWire (settings : LayoutSettings Rat) (rungs : List (LinkKind × Extent Rat))
    (wire : Wire Rat) : Prop :=
  ∃ (index : Nat) (rung : LinkKind × Extent Rat) (grounded : Bool), rungs[index]? = some rung ∧
    RungWire (twoportLines settings rungs) (slotAt settings rungs index rung) grounded wire

include nonnegative centred in
/-- The targets of a twoport are side by side. -/
theorem isTiling_twoport (circuit : Circuit) :
    IsTiling (twoportExtent settings circuit rungs).box (rungTiles settings rungs)
      (IsRungWire settings rungs) := by
  have widths := @slotWidths_nonneg settings rungs centred
  refine isTiling_of_row .horizontal widths ?_ ?_
  · intro index tile foundTile
    rw [rungTiles, List.getElem?_mapIdx, Option.map_eq_some_iff] at foundTile
    obtain ⟨rung, found, rfl⟩ := foundTile
    exact rungTile_within nonnegative centred circuit found
  · rintro wire ⟨index, rung, grounded, found, isWire⟩
    have foundWidth :
        (rungs.map (slotWidth settings))[index]? = some (slotWidth settings rung) := by
      simp [found]
    have foundTile : (rungTiles settings rungs)[index]? =
        some (rungTile settings rungs index rung) := by
      simp [rungTiles, found]
    have finish := startOf_succ foundWidth
    have first := startOf_nonneg widths index
    have last := startOf_add_le_sum widths foundWidth
    have places : ∀ point ∈ wire.ends, startOf (rungs.map (slotWidth settings)) index ≤ point.x ∧
        point.x ≤ startOf (rungs.map (slotWidth settings)) (index + 1) := by
      intro point isEnd
      rw [finish]
      exact stop_bounds (slotWidth_bounds (centred rung (List.mem_of_getElem? found))).1
        (rungWire_stops isWire point isEnd)
    obtain ⟨heights, clear⟩ := rungWire_heights nonnegative centred found isWire
    refine ⟨Wire.box_within fun point isEnd => Box.contains_iff.mpr ⟨?_, heights point isEnd⟩,
      .inr ⟨index, _, foundTile, ⟨?_, ?_⟩, .vertical, ?_⟩⟩
    · obtain ⟨low, high⟩ := places point isEnd
      simp only [Extent.box, twoportExtent, Scalar.sum_eq]
      constructor <;> linarith
    · exact Wire.le_low_box.mpr fun point isEnd => (places point isEnd).1
    · exact Wire.high_box_le.mpr fun point isEnd => (places point isEnd).2
    · exact clear.imp Wire.high_box_le.mpr Wire.le_low_box.mpr

end

end Schematic
