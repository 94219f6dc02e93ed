import Schematic.Proofs.Alignment.Guarantee
import Schematic.Proofs.Layout.Slots
import Schematic.Proofs.Tiling.Nesting

/-!
# Shunts in their slots

A slot is as wide as the target of its shunt is high, but the target hangs from
the middle of the slot by its port.  It is in its slot if the port is in the
middle of its edge, and otherwise only if the slot is wide enough on both sides of
the port.  Targets that are in their slots do not overlap.
-/

namespace Schematic

open Schematic.Measure

namespace LinkSlot

/-- A box between the edges of a slot of a twoport that starts at `left`. -/
def Encloses (left : Rat) (slot : LinkSlot Rat) (box : Box Rat) : Prop :=
  left + slot.start ≤ box.left ∧ box.right ≤ left + slot.finish

/-- The box of the target of a slot. -/
structure HasTarget (left : Rat) (slot : LinkSlot Rat) (box : Box Rat) : Prop where
  /-- A series target fills its slot. -/
  series : slot.kind = .series →
    box.left = left + slot.start ∧ box.right = left + slot.finish
  /-- A shunt hangs from the middle of its slot. -/
  shunt : slot.kind = .shunt →
    box.left = left + slot.middle - slot.target.ascent ∧
      box.right = left + slot.middle + slot.target.descent
  /-- There is room for a shunt, but not at any place in the slot. -/
  room : slot.kind = .shunt →
    0 ≤ slot.target.ascent ∧ 0 ≤ slot.target.descent ∧
      slot.target.ascent + slot.target.descent ≤ slot.width

variable {left : Rat} {slot first second : LinkSlot Rat} {box other : Box Rat}

/-- A target is in its slot unless it is a shunt that reaches further than half of the slot
to one side. -/
theorem HasTarget.encloses_iff (target : slot.HasTarget left box) :
    slot.Encloses left box ↔ (slot.kind = .shunt →
      slot.target.ascent ≤ slot.width / 2 ∧ slot.target.descent ≤ slot.width / 2) := by
  obtain ⟨series, shunt, -⟩ := target
  cases isKind : slot.kind with
  | series =>
      obtain ⟨start, finish⟩ := series isKind
      simp [Encloses, start, finish]
  | shunt =>
      obtain ⟨start, finish⟩ := shunt isKind
      simp only [Encloses, start, finish, middle, LinkSlot.finish, Scalar.half_eq, forall_const]
      constructor <;> rintro ⟨low, high⟩ <;> constructor <;> linarith

theorem Encloses.beside (inFirst : first.Encloses left box) (inSecond : second.Encloses left other)
    (ordered : first.finish ≤ second.start) : box.Beside other :=
  ⟨.horizontal, .inl (by
    simp only [Box.low, Box.high]
    linarith [inFirst.2, inSecond.1])⟩

end LinkSlot

section

variable {settings : LayoutSettings Rat} {slot : LinkSlot Rat} {part : Measure Rat}

theorem hasTarget_place (corner : Point Rat) (lines : TwoportLines Rat)
    (level : part.extent.IsLevel) (same : slot.target = part.extent)
    (width : slot.width = slotWidth settings (slot.kind, slot.target)) :
    slot.HasTarget corner.x (part.place settings (slot.targetFrame ⟨corner, false⟩ lines)).box := by
  have above := level.above
  have below := level.below
  obtain ⟨kind, target, start, breadth⟩ := slot
  obtain rfl : target = part.extent := same
  rw [Measure.place_box]
  cases kind with
  | series =>
      obtain rfl : breadth = part.extent.width := width
      change LinkSlot.HasTarget _ _ (((Frame.mk corner false).shifted _).box _)
      rw [Frame.box_shifted]
      constructor
      · intro _
        simp [Frame.box, Box.moved, Extent.box, LinkSlot.finish]
      · rintro ⟨⟩
      · rintro ⟨⟩
  | shunt =>
      change breadth = Scalar.larger settings.shuntStub part.extent.height at width
      change LinkSlot.HasTarget _ _ (((Frame.mk corner false).turned _).box _)
      rw [Frame.box_turned]
      constructor
      · rintro ⟨⟩
      · intro _
        simp only [Frame.box, Box.moved, Box.transposed, Extent.box, Extent.ascent, Extent.descent,
          if_false, Bool.false_eq_true]
        constructor <;> linarith
      · intro _
        rw [Extent.ascent_add_descent, width, Scalar.larger_eq]
        exact ⟨above, below, le_max_right _ _⟩

/-- Boxes of different targets do not overlap if both are in their slots. -/
theorem targets_disjoint {left : Rat} {slots : List (LinkSlot Rat)} {targets : List (Layout Rat)}
    (sameLength : slots.length = targets.length)
    (ordered : slots.Pairwise fun first second => first.finish ≤ second.start) :
    (slots.zip targets).Pairwise fun first second =>
      first.1.Encloses left first.2.box → second.1.Encloses left second.2.box →
        ∀ point, first.2.box.Surrounds point → ¬second.2.box.Surrounds point := by
  rw [← List.map_fst_zip sameLength.le, List.pairwise_map] at ordered
  refine ordered.imp fun before inFirst inSecond point surrounds => ?_
  exact (inFirst.beside inSecond before).not_surrounds surrounds.contains

end

/-- The box of a shunt hangs from the middle of its slot, so it is in the slot exactly if it
does not reach further than half of the slot to either side, as with all centred symbols. -/
theorem shunts_hang_from_middle (symbols : SymbolLibrary Rat) (level : symbols.IsLevel)
    (settings : LayoutSettings Rat) (nonnegative : settings.IsNonnegative) (text : String)
    (links : List (Link Circuit)) (parsed : Reading.parse text = .ok (.twoport links))
    (known : ∀ element ∈ (Circuit.twoport links).elements, (symbols element.kind).isSome) :
    ∃ measure layout, (Circuit.twoport links).measure symbols settings = .ok measure ∧
      (Circuit.twoport links).layout symbols settings = .ok layout ∧
      List.Forall₂ (fun slot target => slot.HasTarget settings.originX target.box ∧
          (slot.Encloses settings.originX target.box ↔ (slot.kind = .shunt →
            slot.target.ascent ≤ slot.width / 2 ∧ slot.target.descent ≤ slot.width / 2)))
        (ladderSlots settings links measure.parts) layout.children ∧
      ((ladderSlots settings links measure.parts).zip layout.children).Pairwise
        (fun first second =>
          first.1.Encloses settings.originX first.2.box →
            second.1.Encloses settings.originX second.2.box →
              ∀ point, first.2.box.Surrounds point → ¬second.2.box.Surrounds point) ∧
      (symbols.IsCentred →
        List.Forall₂ (fun slot target => slot.Encloses settings.originX target.box)
          (ladderSlots settings links measure.parts) layout.children) := by
  have wellFormed := Reading.wellFormed_of_parse parsed
  obtain ⟨measure, measured⟩ := @Circuit.WellFormed.exists_measure _ _ _ settings _ wellFormed known
  obtain ⟨root, same⟩ := wellFormed.sized measured
  cases root with
  | part sized => exact absurd same (sized.not_twoport _)
  | @twoport others parts sized =>
      obtain rfl : others = links := Circuit.twoport.inj same
      have levels := (measure_isLevel level nonnegative _ measured).2
      have sameLength := (exists_parts_of_measure measured).2.2
      have targets : List.Forall₂ (fun slot target => slot.HasTarget settings.originX target.box)
          (ladderSlots settings others parts)
          ((network settings others parts).place settings ⟨settings.origin, false⟩).children :=
        forall₂_network (fun slot part isPart same width =>
          hasTarget_place settings.origin _ (levels part isPart) same width) sameLength
      have isRow := @ladderSlots_isRow settings others parts nonnegative levels
      refine ⟨_, _, measured, Circuit.layout_of_measure measured,
        targets.imp fun _ _ target => ⟨target, target.encloses_iff⟩,
        targets_disjoint targets.length_eq isRow.ordered, fun centred => ?_⟩
      refine forall₂_network (fun slot part isPart same width => ?_) sameLength
      have target := hasTarget_place settings.origin (ladderLines settings others parts)
        (levels part isPart) same width
      have middle := ((sized part isPart).isCentred centred nonnegative).hasCentredPorts
      exact target.encloses_iff.mpr fun isShunt => by
        have room := target.room isShunt
        rw [same, middle.ascent, middle.descent] at room ⊢
        constructor <;> linarith

theorem shunts_hang_from_middle_high :
    highPorts.IsLevel ∧ (LayoutSettings.standard : LayoutSettings Rat).IsNonnegative ∧
      ∃ links measure layout, Reading.parse "|R1-R2|C3" = .ok (.twoport links) ∧
        (Circuit.twoport links).measure highPorts .standard = .ok measure ∧
        (Circuit.twoport links).layout highPorts .standard = .ok layout ∧
        List.Forall₂ (fun slot target => slot.HasTarget 0 target.box)
          (ladderSlots .standard links measure.parts) layout.children := by
  have level : highPorts.IsLevel := by
    rintro kind symbol ⟨⟩
    exact ⟨by decide, by decide, 7, by decide, by decide, rfl⟩
  have parsed : Reading.parse "|R1-R2|C3" = .ok (.twoport [
      ⟨.shunt, .element ⟨.resistor, some "1"⟩⟩, ⟨.series, .element ⟨.resistor, some "2"⟩⟩,
      ⟨.shunt, .element ⟨.capacitor, some "3"⟩⟩]) := by
    apply eq_ok_of_toOption
    decide +kernel
  obtain ⟨measure, layout, measured, placed, targets, -⟩ := shunts_hang_from_middle highPorts level
    .standard LayoutSettings.standard_isNonnegative "|R1-R2|C3" _ parsed fun _ _ => rfl
  exact ⟨level, LayoutSettings.standard_isNonnegative, _, measure, layout, parsed, measured, placed,
    targets.imp fun _ _ target => target.1⟩

/-- A library of high boxes with their ports in the upper corners. -/
def topPorts : SymbolLibrary Rat :=
  fun _ => some ⟨"TopPorts", "Top ports", 100, 200, (⟨0, 0⟩, ⟨100, 0⟩)⟩

/-- A shunt with its port at the edge of its box is not in its slot, and it overlaps the
target of the next link. -/
theorem shunt_leaves_its_slot :
    topPorts.IsLevel ∧ (LayoutSettings.standard : LayoutSettings Rat).IsNonnegative ∧
      ∃ links measure layout first second, Reading.parse "|R1-R2" = .ok (.twoport links) ∧
        (Circuit.twoport links).measure topPorts .standard = .ok measure ∧
        (Circuit.twoport links).layout topPorts .standard = .ok layout ∧
        (ladderSlots .standard links measure.parts).zip layout.children = [first, second] ∧
        first.1.kind = .shunt ∧ ¬first.1.Encloses 0 first.2.box ∧
        ∃ point, first.2.box.Surrounds point ∧ second.2.box.Surrounds point := by
  have level : topPorts.IsLevel := by
    rintro kind symbol ⟨⟩
    exact ⟨by decide, by decide, 0, by decide, by decide, rfl⟩
  have parsed : Reading.parse "|R1-R2" = .ok (.twoport [
      ⟨.shunt, .element ⟨.resistor, some "1"⟩⟩, ⟨.series, .element ⟨.resistor, some "2"⟩⟩]) := by
    apply eq_ok_of_toOption
    decide +kernel
  refine ⟨level, LayoutSettings.standard_isNonnegative, _, _, _, _, _, parsed, rfl, rfl, rfl, rfl,
    ?_, ⟨250, 50⟩, ?_, ?_⟩
  · rintro ⟨-, inSlot⟩
    revert inSlot
    decide +kernel
  · rintro (_ | _) <;> decide +kernel
  · rintro (_ | _) <;> decide +kernel

end Schematic
