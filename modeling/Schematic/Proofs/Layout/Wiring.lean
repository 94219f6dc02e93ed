import Schematic.Connectivity
import Schematic.Proofs.Layout.Frames

/-!
# The wires of groups and twoports

The wires of buses and slots are collected by recursion over lists.  This file
describes them by the neighbours of taps, and by the slots at their positions.
-/

namespace Schematic

variable {frame : Frame Rat}

theorem mem_insertTap {tap found : Rat} {taps : List Rat} :
    found ∈ insertTap tap taps ↔ found = tap ∨ found ∈ taps := by
  fun_induction insertTap tap taps with
  | case1 => simp
  | case2 first rest same =>
      rw [beq_iff_eq] at same
      simp [same]
  | case3 => simp
  | case4 first rest _ _ ih =>
      rw [List.mem_cons, ih, List.mem_cons]
      tauto

theorem mem_busTaps {port found : Rat} {ports : List Rat} :
    found ∈ busTaps port ports ↔ found = port ∨ found ∈ ports := by
  have folded : ∀ start : List Rat,
      found ∈ ports.foldl (fun taps tap => insertTap tap taps) start ↔
        found ∈ start ∨ found ∈ ports := by
    induction ports with
    | nil => simp
    | cons tap rest ih =>
        intro start
        rw [List.foldl_cons, ih, mem_insertTap, List.mem_cons]
        tauto
  rw [busTaps, folded, List.mem_singleton]

theorem mem_branchSlots {settings : LayoutSettings Rat} {width : Rat}
    {branches : List (Extent Rat)} {slot : BranchSlot Rat} :
    slot ∈ branchSlots settings width Scalar.zero branches ↔
      ∃ index branch, branches[index]? = some branch ∧
        slot = ⟨branch, branchCorner settings width branches index branch⟩ := by
  rw [List.mem_iff_getElem?]
  simp only [branchSlots_getElem?_zero, Option.map_eq_some_iff]
  constructor
  · rintro ⟨index, branch, found, rfl⟩
    exact ⟨index, branch, found, rfl⟩
  · rintro ⟨index, branch, found, rfl⟩
    exact ⟨index, branch, found, rfl⟩

theorem Network.mem_of_mem_neighbours {β : Type} {members : List β} {pair : β × β}
    (isPair : pair ∈ Network.neighbours members) :
    pair.1 ∈ members ∧ pair.2 ∈ members := by
  fun_induction Network.neighbours members with
  | case1 first second rest ih =>
      rcases List.mem_cons.mp isPair with rfl | later
      · simp
      · obtain ⟨isFirst, isSecond⟩ := ih later
        exact ⟨List.mem_cons_of_mem first isFirst, List.mem_cons_of_mem first isSecond⟩
  | case2 => cases isPair

theorem busWires_eq (x : Rat) (taps : List Rat) :
    busWires frame x taps =
      (Network.neighbours taps).flatMap fun pair => frame.connect ⟨x, pair.1⟩ ⟨x, pair.2⟩ := by
  induction taps with
  | nil => rfl
  | cons top rest ih =>
      cases rest with
      | nil => rfl
      | cons bottom rest => rw [busWires, Network.neighbours, List.flatMap_cons, ih]

/-- A piece of a bus connects two of its taps. -/
theorem exists_taps_of_mem_busWires {x : Rat} {taps : List Rat} {wire : Wire Rat}
    (isWire : wire ∈ busWires frame x taps) :
    ∃ top ∈ taps, ∃ bottom ∈ taps, wire ∈ frame.connect ⟨x, top⟩ ⟨x, bottom⟩ := by
  rw [busWires_eq] at isWire
  obtain ⟨pair, isPair, connected⟩ := List.mem_flatMap.mp isWire
  obtain ⟨isTop, isBottom⟩ := Network.mem_of_mem_neighbours isPair
  exact ⟨pair.1, isTop, pair.2, isBottom, connected⟩

theorem mem_targetsOf {links : List (LinkKind × Extent Rat)} {kind : LinkKind}
    {target : Extent Rat} :
    target ∈ targetsOf kind links ↔ (kind, target) ∈ links := by
  simp only [targetsOf, List.mem_map, List.mem_filter, beq_iff_eq]
  constructor
  · rintro ⟨⟨_, _⟩, ⟨isRung, rfl⟩, rfl⟩
    exact isRung
  · exact fun isRung => ⟨(kind, target), ⟨isRung, rfl⟩, rfl⟩

/-- A slot draws its wires, which depend on whether it is the first and whether
it is the last one. -/
theorem mem_slotWires {lines : TwoportLines Rat} {isFirst : Bool} {slots : List (LinkSlot Rat)}
    {wire : Wire Rat} :
    wire ∈ slotWires frame lines isFirst slots ↔ ∃ (index : Nat) (slot : LinkSlot Rat),
      slots[index]? = some slot ∧
      wire ∈ slot.wires frame lines (isFirst && index == 0) (index + 1 == slots.length) := by
  induction slots generalizing isFirst with
  | nil => simp [slotWires]
  | cons slot rest ih =>
      have single : rest.isEmpty = (0 + 1 == rest.length + 1) := by
        cases rest <;> simp
      rw [slotWires, List.mem_append, ih]
      constructor
      · rintro (inSlot | ⟨index, later, found, inSlot⟩)
        · refine ⟨0, slot, rfl, ?_⟩
          rwa [List.length_cons, ← single, beq_self_eq_true, Bool.and_true]
        · refine ⟨index + 1, later, found, ?_⟩
          simpa using inSlot
      · rintro ⟨index, other, found, inSlot⟩
        cases index with
        | zero =>
            obtain rfl : slot = other := Option.some_inj.mp found
            rw [List.length_cons, ← single, beq_self_eq_true, Bool.and_true] at inSlot
            exact .inl inSlot
        | succ index => exact .inr ⟨index, other, found, by simpa using inSlot⟩

theorem twoport_wires {settings : LayoutSettings Rat} {extent : Extent Rat}
    {parts : List (Extent Rat)} {links : List (Link Circuit)}
    (isTwoport : extent.circuit = .twoport links) :
    (placement settings extent parts frame).wires =
      slotWires frame (twoportLines settings ((links.map Link.kind).zip parts)) true
        (linkSlots settings Scalar.zero ((links.map Link.kind).zip parts)) := by
  rw [placement, isTwoport]
  rfl

end Schematic
