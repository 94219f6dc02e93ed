import Schematic.Proofs.Connectivity.Classes
import Schematic.Proofs.Layout.Axes
import Schematic.Proofs.Layout.Wiring

/-!
# Edges and wires

A wire is cut into edges at all vertices on it.  This file proves that the ends
of a wire are joined by edges, and that both ends of every edge are on one
wire, not further out than its ends.
-/

namespace Schematic

/-- No coordinate of the point is beyond those of the ends of the wire. -/
def Wire.Covers (wire : Wire Rat) (point : Point Rat) : Prop :=
  ∀ axis : Axis, (∃ stop ∈ wire.ends, axis.of stop ≤ axis.of point) ∧
    ∃ stop ∈ wire.ends, axis.of point ≤ axis.of stop

theorem Wire.covers_end {wire : Wire Rat} {point : Point Rat} (isEnd : point ∈ wire.ends) :
    wire.Covers point :=
  fun _ => ⟨⟨point, isEnd, le_rfl⟩, ⟨point, isEnd, le_rfl⟩⟩

theorem Point.mem_insertOrdered {point found : Point Rat} {points : List (Point Rat)} :
    found ∈ Point.insertOrdered point points ↔ found = point ∨ found ∈ points := by
  fun_induction Point.insertOrdered point points with
  | case1 => simp
  | case2 first rest same =>
      rw [Point.same_iff] at same
      simp [same]
  | case3 => simp
  | case4 first rest _ _ ih =>
      rw [List.mem_cons, ih, List.mem_cons]
      tauto

theorem Point.mem_ordered {found : Point Rat} {points : List (Point Rat)} :
    found ∈ Point.ordered points ↔ found ∈ points := by
  have sorted : ∀ start : List (Point Rat),
      found ∈ points.foldl (fun sorted point => Point.insertOrdered point sorted) start ↔
        found ∈ start ∨ found ∈ points := by
    induction points with
    | nil => simp
    | cons point rest ih =>
        intro start
        rw [List.foldl_cons, ih, Point.mem_insertOrdered, List.mem_cons]
        tauto
  simpa [Point.ordered] using sorted []

namespace Network

theorem sameEdge_iff {first second : Point Rat × Point Rat} :
    sameEdge first second = true ↔ first = second := by
  rw [sameEdge, Bool.and_eq_true, Point.same_iff, Point.same_iff, Prod.ext_iff]

theorem mem_insertEdge {edges : List (Point Rat × Point Rat)} {edge found : Point Rat × Point Rat} :
    found ∈ insertEdge edges edge ↔ found = edge ∨ found ∈ edges := by
  unfold insertEdge
  split
  · next present =>
    rw [List.any_eq_true] at present
    obtain ⟨other, isOther, same⟩ := present
    rw [sameEdge_iff] at same
    subst same
    constructor
    · exact .inr
    · rintro (rfl | member)
      · exact isOther
      · exact member
  · simp

theorem mem_foldl_insertEdge {edges start : List (Point Rat × Point Rat)}
    {found : Point Rat × Point Rat} :
    found ∈ edges.foldl insertEdge start ↔ found ∈ start ∨ found ∈ edges := by
  induction edges generalizing start with
  | nil => simp
  | cons edge rest ih =>
      rw [List.foldl_cons, ih, mem_insertEdge, List.mem_cons]
      tauto

section

variable {β : Type}

/-- All members of a list are joined through neighbours. -/
theorem joined_first {first : β} {rest : List β} {member : β} (isMember : member ∈ first :: rest) :
    Relation.EqvGen (fun left right => (left, right) ∈ neighbours (first :: rest))
      first member := by
  induction rest generalizing first with
  | nil =>
      rw [List.mem_singleton.mp isMember]
      exact .refl first
  | cons second rest ih =>
      rcases List.mem_cons.mp isMember with rfl | later
      · exact .refl member
      · have step : Relation.EqvGen
            (fun left right => (left, right) ∈ neighbours (first :: second :: rest)) first second :=
          .rel _ _ List.mem_cons_self
        exact step.trans _ _ _ ((ih later).mono fun _ _ isPair => List.mem_cons_of_mem _ isPair)

theorem joined_members {members : List β} {one other : β} (isOne : one ∈ members)
    (isOther : other ∈ members) :
    Relation.EqvGen (fun left right => (left, right) ∈ neighbours members) one other := by
  cases members with
  | nil => cases isOne
  | cons first rest => exact ((joined_first isOne).symm _ _).trans _ _ _ (joined_first isOther)

end

/-! ## The points on a wire -/

theorem exists_ends_of_between {wire : Wire Rat} (axis : Axis) {value : Rat}
    (isBetween : between value (axis.of wire.start) (axis.of wire.finish) = true) :
    (∃ stop ∈ wire.ends, axis.of stop ≤ value) ∧ ∃ stop ∈ wire.ends, value ≤ axis.of stop := by
  simp only [between, Scalar.smaller_eq, Scalar.larger_eq, Bool.and_eq_true,
    decide_eq_true_eq] at isBetween
  obtain ⟨above, below⟩ := isBetween
  constructor
  · rcases min_lt_iff.mp above with start | finish
    · exact ⟨wire.start, by simp [Wire.ends], start.le⟩
    · exact ⟨wire.finish, by simp [Wire.ends], finish.le⟩
  · rcases lt_max_iff.mp below with start | finish
    · exact ⟨wire.start, by simp [Wire.ends], start.le⟩
    · exact ⟨wire.finish, by simp [Wire.ends], finish.le⟩

theorem covers_of_inside {point : Point Rat} {wire : Wire Rat}
    (isInside : inside point wire = true) : wire.Covers point := by
  have isEnd : wire.finish ∈ wire.ends := by simp [Wire.ends]
  unfold inside at isInside
  split at isInside
  · next onLine =>
    simp only [Wire.isVertical, Bool.and_eq_true, beq_iff_eq] at onLine
    intro axis
    cases axis with
    | horizontal => exact ⟨⟨_, isEnd, onLine.2.le⟩, ⟨_, isEnd, onLine.2.ge⟩⟩
    | vertical => exact exists_ends_of_between .vertical isInside
  · split at isInside
    · next onLine =>
      simp only [Wire.isHorizontal, Bool.and_eq_true, beq_iff_eq] at onLine
      intro axis
      cases axis with
      | horizontal => exact exists_ends_of_between .horizontal isInside
      | vertical => exact ⟨⟨_, isEnd, onLine.2.le⟩, ⟨_, isEnd, onLine.2.ge⟩⟩
    · cases isInside

theorem mem_stops {vertices : List (Point Rat)} {wire : Wire Rat} {point : Point Rat} :
    point ∈ stops vertices wire ↔
      point ∈ wire.ends ∨ (point ∈ vertices ∧ inside point wire = true) := by
  simp [stops, Point.mem_ordered, Wire.ends, or_assoc]

theorem covers_of_mem_stops {vertices : List (Point Rat)} {wire : Wire Rat} {point : Point Rat}
    (isStop : point ∈ stops vertices wire) : wire.Covers point := by
  rcases mem_stops.mp isStop with isEnd | ⟨-, isInside⟩
  · exact Wire.covers_end isEnd
  · exact covers_of_inside isInside

/-! ## The network of wires -/

variable {ports : List (Point Rat)} {wires : List (Wire Rat)}

theorem mem_vertices {point : Point Rat} :
    point ∈ (ofWires ports wires).vertices ↔
      point ∈ ports ∨ ∃ wire ∈ wires, point ∈ wire.ends := by
  simp [ofWires, Point.mem_ordered, Wire.ends]

theorem mem_edges {edge : Point Rat × Point Rat} :
    edge ∈ (ofWires ports wires).edges ↔
      ∃ wire ∈ wires, edge ∈ neighbours (stops (ofWires ports wires).vertices wire) := by
  simp [ofWires, mem_foldl_insertEdge]

theorem closed_ofWires : (ofWires ports wires).Closed := by
  have isVertex : ∀ wire ∈ wires, ∀ point ∈ stops (ofWires ports wires).vertices wire,
      point ∈ (ofWires ports wires).vertices := by
    intro wire isWire point isStop
    rcases mem_stops.mp isStop with isEnd | ⟨vertex, -⟩
    · exact mem_vertices.mpr (.inr ⟨wire, isWire, isEnd⟩)
    · exact vertex
  intro edge isEdge
  obtain ⟨wire, isWire, isPair⟩ := mem_edges.mp isEdge
  obtain ⟨isFirst, isSecond⟩ := mem_of_mem_neighbours isPair
  exact ⟨isVertex wire isWire _ isFirst, isVertex wire isWire _ isSecond⟩

/-- The ends of a wire are joined. -/
theorem joined_wire {wire : Wire Rat} (isWire : wire ∈ wires) :
    Relation.EqvGen (Edge (ofWires ports wires).edges) wire.start wire.finish := by
  have isEnd : ∀ point ∈ wire.ends, point ∈ stops (ofWires ports wires).vertices wire :=
    fun point isEnd => mem_stops.mpr (.inl isEnd)
  have joined := joined_members (isEnd wire.start (by simp [Wire.ends]))
    (isEnd wire.finish (by simp [Wire.ends]))
  exact joined.mono fun _ _ isPair => mem_edges.mpr ⟨wire, isWire, isPair⟩

/-- Both ends of an edge are on one wire. -/
theorem exists_wire_of_edge {first second : Point Rat}
    (isEdge : Edge (ofWires ports wires).edges first second) :
    ∃ wire ∈ wires, wire.Covers first ∧ wire.Covers second := by
  obtain ⟨wire, isWire, isPair⟩ := mem_edges.mp isEdge
  obtain ⟨isFirst, isSecond⟩ := mem_of_mem_neighbours isPair
  exact ⟨wire, isWire, covers_of_mem_stops isFirst, covers_of_mem_stops isSecond⟩

end Network

end Schematic
