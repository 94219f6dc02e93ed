import Schematic.Proofs.Layout.Level
import Schematic.Proofs.Layout.Moving

/-!
# Slots and their targets

Every slot of a twoport has one target, which is placed in the frame that
belongs to the slot.  So what holds of every measure in the frame of its slot
holds of all targets of a twoport.
-/

namespace Schematic

variable {settings : LayoutSettings Rat} {links : List (Link Circuit)}
  {parts : List (Measure Rat)} {frame : Frame Rat} {Holds : LinkSlot Rat → Layout Rat → Prop}

/-- The slots of the twoport with these links and targets. -/
abbrev ladderSlots (settings : LayoutSettings Rat) (links : List (Link Circuit))
    (parts : List (Measure Rat)) : List (LinkSlot Rat) :=
  linkSlots settings Scalar.zero (rungs links parts)

/-! ## Rows of slots -/

/-- Slots side by side. -/
structure IsRow (slots : List (LinkSlot Rat)) : Prop where
  wide : ∀ slot ∈ slots, 0 ≤ slot.width
  /-- Each slot starts where the one before it ends. -/
  joined : slots.IsChain fun one next => one.finish = next.start
  ordered : slots.Pairwise fun one later => one.finish ≤ later.start

section

variable {rungs : List (LinkKind × Extent Rat)}

theorem linkSlots_kinds (x : Rat) (rungs : List (LinkKind × Extent Rat)) :
    (linkSlots settings x rungs).map LinkSlot.kind = rungs.map Prod.fst := by
  induction rungs generalizing x with
  | nil => rfl
  | cons rung rest ih => rw [linkSlots, List.map_cons, List.map_cons, ih]

theorem linkSlots_joined (x : Rat) (rungs : List (LinkKind × Extent Rat)) :
    (linkSlots settings x rungs).IsChain fun one next => one.finish = next.start := by
  induction rungs generalizing x with
  | nil => exact .nil
  | cons rung rest ih =>
      cases rest with
      | nil => exact .singleton _
      | cons next others => exact .cons_cons rfl (ih (x + slotWidth settings rung))

theorem linkSlots_wide (wide : ∀ rung ∈ rungs, 0 ≤ slotWidth settings rung) (x : Rat) :
    ∀ slot ∈ linkSlots settings x rungs, 0 ≤ slot.width := by
  induction rungs generalizing x with
  | nil => exact List.forall_mem_nil _
  | cons rung rest ih =>
      obtain ⟨firstWide, restWide⟩ := List.forall_mem_cons.mp wide
      exact List.forall_mem_cons.mpr ⟨firstWide, ih restWide _⟩

/-- Slots follow one another from left to right. -/
theorem linkSlots_pairwise (wide : ∀ rung ∈ rungs, 0 ≤ slotWidth settings rung) (x : Rat) :
    (∀ slot ∈ linkSlots settings x rungs, x ≤ slot.start) ∧
      (linkSlots settings x rungs).Pairwise fun first second => first.finish ≤ second.start := by
  induction rungs generalizing x with
  | nil => exact ⟨List.forall_mem_nil _, .nil⟩
  | cons rung rest ih =>
      obtain ⟨firstWide, restWide⟩ := List.forall_mem_cons.mp wide
      obtain ⟨behind, ordered⟩ := ih restWide (x + slotWidth settings rung)
      rw [linkSlots]
      refine ⟨List.forall_mem_cons.mpr ⟨le_rfl, fun slot isSlot => ?_⟩,
        List.pairwise_cons.mpr ⟨behind, ordered⟩⟩
      exact (le_add_of_nonneg_right firstWide).trans (behind slot isSlot)

end

theorem ladderSlots_isRow (nonnegative : settings.IsNonnegative)
    (levels : ∀ part ∈ parts, part.extent.IsLevel) : IsRow (ladderSlots settings links parts) := by
  have wide : ∀ rung ∈ rungs links parts, 0 ≤ slotWidth settings rung := fun rung isRung =>
    slotWidth_nonneg nonnegative (List.forall_mem_map.mpr levels _ (List.of_mem_zip isRung).2)
  exact ⟨linkSlots_wide wide _, linkSlots_joined _ _, (linkSlots_pairwise wide _).2⟩

theorem ladderSlots_kinds (sameLength : parts.length = links.length) :
    (ladderSlots settings links parts).map LinkSlot.kind = links.map Link.kind := by
  rw [ladderSlots, linkSlots_kinds, rungs, List.map_fst_zip]
  simp [sameLength]

/-! ## Targets -/

/-- The place of a slot does not matter here, so the row may start anywhere. -/
theorem forall₂_placeAll {frameOf : LinkSlot Rat → Frame Rat}
    (each : ∀ slot, ∀ part ∈ parts, slot.target = part.extent →
      slot.width = slotWidth settings (slot.kind, slot.target) →
      Holds slot (part.place settings (frameOf slot)))
    (sameLength : parts.length = links.length) (x : Rat) :
    List.Forall₂ Holds (linkSlots settings x (rungs links parts))
      (placeAll settings parts ((linkSlots settings x (rungs links parts)).map frameOf)) := by
  induction links generalizing parts x with
  | nil =>
      obtain rfl := List.length_eq_zero_iff.mp sameLength
      exact .nil
  | cons link rest ih =>
      cases parts with
      | nil => cases sameLength
      | cons part others =>
          exact .cons (each _ part List.mem_cons_self rfl rfl)
            (ih (fun slot other isOther => each slot other (List.mem_cons_of_mem part isOther))
              (Nat.succ.inj sameLength) _)

theorem forall₂_network
    (each : ∀ slot, ∀ part ∈ parts, slot.target = part.extent →
      slot.width = slotWidth settings (slot.kind, slot.target) →
      Holds slot (part.place settings (slot.targetFrame frame (ladderLines settings links parts))))
    (sameLength : parts.length = links.length) :
    List.Forall₂ Holds (ladderSlots settings links parts)
      ((Measure.network settings links parts).place settings frame).children :=
  forall₂_placeAll each sameLength Scalar.zero

/-- Measuring a twoport measures its targets. -/
theorem exists_parts_of_measure {symbols : SymbolLibrary Rat} {measure : Measure Rat}
    (measured : (Circuit.twoport links).measure symbols settings = .ok measure) :
    measureTargets symbols settings links = .ok measure.parts ∧
      measure = Measure.network settings links measure.parts ∧
      measure.parts.length = links.length := by
  rw [Circuit.measure] at measured
  obtain ⟨parts, partsMeasured, measured⟩ := exists_of_bind_eq_ok measured
  cases measured
  have sameLength : parts.length = links.length := by
    simpa using congrArg List.length (measureTargets_isFaithful links partsMeasured).2
  exact ⟨partsMeasured, rfl, sameLength⟩

end Schematic
