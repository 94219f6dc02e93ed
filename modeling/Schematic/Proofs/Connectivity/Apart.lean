import Schematic.Proofs.Connectivity.Edges
import Schematic.Proofs.Number.Nearest

/-!
# Wires that are apart

Points are rounded before they are compared, so wires that nearly meet may be
joined.  Wires that are more than one unit apart, along one of the axes, never
are.  This file proves that labelled wires keep their labels in the network if
any two of them with different labels are apart.
-/

namespace Schematic

/-! ## Rounding -/

/-- Rounding to the places of keys moves a coordinate by less than a quarter. -/
theorem roundTo_places_close (value : Rat) :
    value - 1 / 4 ≤ Scalar.roundTo Network.places value ∧
      Scalar.roundTo Network.places value ≤ value + 1 / 4 := by
  change value - 1 / 4 ≤ (Number.roundHalfEven (value * (Nat.pow 10 6 : Rat)) : Rat) /
      (Nat.pow 10 6 : Rat) ∧
    (Number.roundHalfEven (value * (Nat.pow 10 6 : Rat)) : Rat) / (Nat.pow 10 6 : Rat) ≤
      value + 1 / 4
  have scale : (Nat.pow 10 6 : Rat) = 1000000 := by norm_num
  rw [scale]
  obtain ⟨low, high⟩ := Number.roundHalfEven_close (value * 1000000)
  constructor
  · rw [le_div_iff₀ (by norm_num)]
    linarith
  · rw [div_le_iff₀ (by norm_num)]
    linarith

/-! ## Apart -/

namespace Wire

/-- The first wire is before the second one along an axis, by more than one
unit. -/
def Before (axis : Axis) (first second : Wire Rat) : Prop :=
  ∀ one ∈ first.ends, ∀ other ∈ second.ends, axis.of one + 1 < axis.of other

/-- Two wires are more than one unit apart, along one of the axes. -/
def Apart (first second : Wire Rat) : Prop :=
  ∃ axis, first.Before axis second ∨ second.Before axis first

theorem Apart.symm {first second : Wire Rat} (apart : first.Apart second) :
    second.Apart first := by
  obtain ⟨axis, before⟩ := apart
  exact ⟨axis, before.symm⟩

/-- The wire that is only a point. -/
def dot (point : Point Rat) : Wire Rat :=
  ⟨point, point⟩

end Wire

namespace Network

theorem mem_ends_keyWire {wire : Wire Rat} {point : Point Rat} :
    point ∈ (keyWire wire).ends ↔ ∃ stop ∈ wire.ends, key stop = point := by
  simp [keyWire, Wire.ends, eq_comm]

theorem key_close (axis : Axis) (point : Point Rat) :
    axis.of point - 1 / 4 ≤ axis.of (key point) ∧ axis.of (key point) ≤ axis.of point + 1 / 4 := by
  cases axis with
  | horizontal => exact roundTo_places_close point.x
  | vertical => exact roundTo_places_close point.y

/-- Wires that are apart have no point in common after rounding. -/
theorem not_apart_of_covers {first second : Wire Rat} {point : Point Rat}
    (onFirst : (keyWire first).Covers point) (onSecond : (keyWire second).Covers point) :
    ¬first.Apart second := by
  have notBefore : ∀ axis, ∀ one other : Wire Rat, (keyWire one).Covers point →
      (keyWire other).Covers point → ¬one.Before axis other := by
    intro axis one other onOne onOther before
    obtain ⟨_, isEnd, beyond⟩ := (onOne axis).2
    obtain ⟨last, isLast, rfl⟩ := mem_ends_keyWire.mp isEnd
    obtain ⟨_, isEnd, behind⟩ := (onOther axis).1
    obtain ⟨first, isFirst, rfl⟩ := mem_ends_keyWire.mp isEnd
    have gap := before last isLast first isFirst
    linarith [(key_close axis last).2, (key_close axis first).1]
  rintro ⟨axis, forwards | backwards⟩
  · exact notBefore axis first second onFirst onSecond forwards
  · exact notBefore axis second first onSecond onFirst backwards

variable {Label : Type} {marks : Wire Rat → Label → Prop}

/-- Labelled wires, of which any two with different labels are apart. -/
def Separated (marks : Wire Rat → Label → Prop) : Prop :=
  ∀ ⦃first firstLabel second secondLabel⦄, marks first firstLabel → marks second secondLabel →
    firstLabel = secondLabel ∨ first.Apart second

/-- A vertex has a label if it is on a wire with this label. -/
def HasLabel (marks : Wire Rat → Label → Prop) (vertex : Point Rat) (label : Label) : Prop :=
  ∃ wire, marks wire label ∧ (keyWire wire).Covers vertex

theorem Separated.label_unique (separated : Separated marks) {vertex : Point Rat}
    {first second : Label} (hasFirst : HasLabel marks vertex first)
    (hasSecond : HasLabel marks vertex second) : first = second := by
  obtain ⟨one, oneMark, onOne⟩ := hasFirst
  obtain ⟨other, otherMark, onOther⟩ := hasSecond
  exact (separated oneMark otherMark).resolve_right (not_apart_of_covers onOne onOther)

/-- Edges lead from a label to the same label. -/
theorem Separated.hasLabel_iff (separated : Separated marks) {ports : List (Point Rat)}
    {wires : List (Wire Rat)} (marked : ∀ wire ∈ wires, ∃ label, marks wire label)
    {first second : Point Rat}
    (joined : Relation.EqvGen (Edge (ofWires ports (wires.map keyWire)).edges) first second)
    (label : Label) : HasLabel marks first label ↔ HasLabel marks second label := by
  induction joined with
  | rel start finish isEdge =>
      obtain ⟨_, isKey, onStart, onFinish⟩ := exists_wire_of_edge isEdge
      obtain ⟨wire, isWire, rfl⟩ := List.mem_map.mp isKey
      obtain ⟨wireLabel, wireMark⟩ := marked wire isWire
      have hasStart : HasLabel marks start wireLabel := ⟨wire, wireMark, onStart⟩
      have hasFinish : HasLabel marks finish wireLabel := ⟨wire, wireMark, onFinish⟩
      constructor
      · intro hasLabel
        exact separated.label_unique hasLabel hasStart ▸ hasFinish
      · intro hasLabel
        exact separated.label_unique hasLabel hasFinish ▸ hasStart
  | refl => rfl
  | symm _ _ _ ih => exact ih.symm
  | trans _ _ _ _ _ ihFirst ihSecond => exact ihFirst.trans ihSecond

theorem hasLabel_dot {point : Point Rat} {label : Label} (mark : marks (.dot point) label) :
    HasLabel marks (key point) label :=
  ⟨.dot point, mark,
    Wire.covers_end (mem_ends_keyWire.mpr ⟨point, by simp [Wire.ends, Wire.dot], rfl⟩)⟩

/-- Joined points have the same label. -/
theorem Separated.label_eq (separated : Separated marks) {ports : List (Point Rat)}
    {wires : List (Wire Rat)} (marked : ∀ wire ∈ wires, ∃ label, marks wire label)
    {first second : Point Rat} {firstLabel secondLabel : Label}
    (firstMark : marks (.dot first) firstLabel) (secondMark : marks (.dot second) secondLabel)
    (joined : Relation.EqvGen (Edge (ofWires ports (wires.map keyWire)).edges)
      (key first) (key second)) : firstLabel = secondLabel := by
  have hasFirst := (separated.hasLabel_iff marked joined firstLabel).mp (hasLabel_dot firstMark)
  exact separated.label_unique hasFirst (hasLabel_dot secondMark)

end Network

end Schematic
