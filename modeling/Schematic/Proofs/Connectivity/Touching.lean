import Mathlib.Data.List.Pairwise
import Schematic.Proofs.Connectivity.ClassOrder

/-!
# Points that touch

Two points of a drawing where something ends touch if one wire has both of them
on it.  This file says what it means that classes of points are those which are
linked by touching, and proves it of the electrical nodes of horizontal and
vertical wires: although a wire only joins each point on it to the next one, all
the points on it are in one node.
-/

namespace Schematic

section

variable {α : Type} [Scalar α]

/-- A horizontal or a vertical wire. -/
def Wire.IsStraight (wire : Wire α) : Prop :=
  wire.isHorizontal = true ∨ wire.isVertical = true

/-- Whether a point is on a straight wire or at one of its ends. -/
def Wire.carries (wire : Wire α) (point : Point α) : Bool :=
  Scalar.smaller wire.start.x wire.finish.x ≤ point.x &&
    point.x ≤ Scalar.larger wire.start.x wire.finish.x &&
    Scalar.smaller wire.start.y wire.finish.y ≤ point.y &&
    point.y ≤ Scalar.larger wire.start.y wire.finish.y

namespace Network

/-- Whether a port or the end of a wire is at a point. -/
def endsAt (ports : List (Point α)) (wires : List (Wire α)) (point : Point α) : Bool :=
  ports.any point.same || wires.any fun wire => point.same wire.start || point.same wire.finish

/-- Two points where something ends are the same, or one wire carries both. -/
structure Touch (ports : List (Point α)) (wires : List (Wire α)) (first second : Point α) :
    Prop where
  atFirst : endsAt ports wires first = true
  atSecond : endsAt ports wires second = true
  meets : first.same second = true ∨
    ∃ wire ∈ wires, wire.carries first = true ∧ wire.carries second = true

/-- A point is one of the points of a class. -/
def holds (points : List (Point α)) (point : Point α) : Bool :=
  points.any point.same

/-- Classes that share out the points where something ends by the chains of touching
points among them.  The points of a class are in order, and so are the classes, by
their first points. -/
structure TouchClasses (ports : List (Point α)) (wires : List (Wire α))
    (classes : List (List (Point α))) : Prop where
  covers (point : Point α) :
    endsAt ports wires point = true ↔ ∃ points ∈ classes, holds points point = true
  disjoint : classes.Pairwise fun first second =>
    ∀ point, holds first point = true → holds second point = false
  nonempty : ∀ points ∈ classes, points ≠ []
  ascending : ∀ points ∈ classes, points.Pairwise fun one other => one.before other = true
  ordered : classes.Pairwise fun first second =>
    ∃ one ∈ first.head?, ∃ other ∈ second.head?, one.before other = true
  joined (first second : Point α) : endsAt ports wires first = true →
    endsAt ports wires second = true →
    ((∃ points ∈ classes, holds points first = true ∧ holds points second = true) ↔
      Relation.EqvGen (Touch ports wires) first second)

end Network

end

/-! ## Straight wires -/

namespace Wire

variable {wire : Wire Rat} {point : Point Rat}

theorem carries_iff : wire.carries point = true ↔ wire.Covers point := by
  simp only [carries, Scalar.smaller_eq, Scalar.larger_eq, Bool.and_eq_true, decide_eq_true_eq,
    min_le_iff, le_max_iff, and_assoc]
  constructor
  · rintro ⟨lowX, highX, lowY, highY⟩ axis
    cases axis with
    | horizontal => simpa [Wire.ends, Axis.of] using ⟨lowX, highX⟩
    | vertical => simpa [Wire.ends, Axis.of] using ⟨lowY, highY⟩
  · intro covers
    have horizontal := covers .horizontal
    have vertical := covers .vertical
    simp only [Wire.ends, Axis.of, List.mem_cons, List.not_mem_nil, or_false, exists_eq_or_imp,
      exists_eq_left] at horizontal vertical
    exact ⟨horizontal.1, horizontal.2, vertical.1, vertical.2⟩

end Wire

namespace Network

variable {ports : List (Point Rat)} {wires : List (Wire Rat)} {wire : Wire Rat}
  {point first second : Point Rat}

theorem endsAt_iff : endsAt ports wires point = true ↔ point ∈ (ofWires ports wires).vertices := by
  rw [mem_vertices, endsAt, Bool.or_eq_true, any_same_iff]
  simp [Point.same_iff, Wire.ends]

theorem holds_iff {points : List (Point Rat)} : holds points point = true ↔ point ∈ points :=
  any_same_iff

theorem between_of_ne {value first second : Rat} (low : min first second ≤ value)
    (high : value ≤ max first second) (notFirst : value ≠ first) (notSecond : value ≠ second) :
    between value first second = true := by
  simp only [between, Scalar.smaller_eq, Scalar.larger_eq, Bool.and_eq_true, decide_eq_true_eq]
  constructor
  · apply lt_of_le_of_ne low
    rcases min_choice first second with same | same <;> rw [same]
    · exact notFirst.symm
    · exact notSecond.symm
  · apply lt_of_le_of_ne high
    rcases max_choice first second with same | same <;> rwa [same]

/-- A point on a straight wire is at one of its ends or inside it. -/
theorem mem_ends_or_inside (straight : wire.IsStraight) (covers : wire.Covers point) :
    point ∈ wire.ends ∨ inside point wire = true := by
  have carried := Wire.carries_iff.mpr covers
  simp only [Wire.carries, Scalar.smaller_eq, Scalar.larger_eq, Bool.and_eq_true,
    decide_eq_true_eq, and_assoc] at carried
  obtain ⟨lowX, highX, lowY, highY⟩ := carried
  simp only [Wire.IsStraight, Wire.isHorizontal, Wire.isVertical, beq_iff_eq] at straight
  by_cases atStart : point = wire.start
  · exact .inl (by simp [atStart, Wire.ends])
  by_cases atFinish : point = wire.finish
  · exact .inl (by simp [atFinish, Wire.ends])
  right
  rw [inside]
  simp only [Wire.isHorizontal, Wire.isVertical, Bool.and_eq_true, beq_iff_eq]
  have notBoth {stop : Point Rat} (apart : point ≠ stop) (sameX : point.x = stop.x) :
      point.y ≠ stop.y :=
    fun sameY => apart (Point.eq_of_coordinates sameX sameY)
  rcases straight with level | upright
  · have onLine : wire.finish.y = point.y := by
      rw [level, min_self] at lowY
      rw [level, max_self] at highY
      exact le_antisymm lowY highY
    rw [if_neg fun upright => notBoth atFinish upright.2.symm onLine.symm,
      if_pos ⟨level, onLine⟩]
    exact between_of_ne lowX highX
      (fun sameX => notBoth atStart sameX (onLine.symm.trans level.symm))
      (fun sameX => notBoth atFinish sameX onLine.symm)
  · have onLine : wire.finish.x = point.x := by
      rw [upright, min_self] at lowX
      rw [upright, max_self] at highX
      exact le_antisymm lowX highX
    rw [if_pos ⟨upright, onLine⟩]
    exact between_of_ne lowY highY (notBoth atStart (onLine.symm.trans upright.symm))
      (notBoth atFinish onLine.symm)

/-- The stops of a straight wire are the points on it where something ends. -/
theorem mem_stops_iff (isWire : wire ∈ wires) (straight : wire.IsStraight) :
    point ∈ stops (ofWires ports wires).vertices wire ↔
      endsAt ports wires point = true ∧ wire.carries point = true := by
  rw [endsAt_iff, Wire.carries_iff]
  constructor
  · intro isStop
    refine ⟨?_, covers_of_mem_stops isStop⟩
    rcases mem_stops.mp isStop with isEnd | ⟨isVertex, -⟩
    · exact mem_vertices.mpr (.inr ⟨wire, isWire, isEnd⟩)
    · exact isVertex
  · rintro ⟨isVertex, covers⟩
    rcases mem_ends_or_inside straight covers with isEnd | isInside
    · exact mem_stops.mpr (.inl isEnd)
    · exact mem_stops.mpr (.inr ⟨isVertex, isInside⟩)

/-! ## Chains of edges and of touching points -/

theorem touch_of_edge (straight : ∀ wire ∈ wires, wire.IsStraight)
    (isEdge : Edge (ofWires ports wires).edges first second) : Touch ports wires first second := by
  obtain ⟨wire, isWire, isPair⟩ := mem_edges.mp isEdge
  obtain ⟨isFirst, isSecond⟩ := mem_of_mem_neighbours isPair
  obtain ⟨atFirst, onFirst⟩ := (mem_stops_iff isWire (straight wire isWire)).mp isFirst
  obtain ⟨atSecond, onSecond⟩ := (mem_stops_iff isWire (straight wire isWire)).mp isSecond
  exact ⟨atFirst, atSecond, .inr ⟨wire, isWire, onFirst, onSecond⟩⟩

theorem joined_of_touch (straight : ∀ wire ∈ wires, wire.IsStraight)
    (touch : Touch ports wires first second) :
    Relation.EqvGen (Edge (ofWires ports wires).edges) first second := by
  rcases touch.meets with same | ⟨wire, isWire, onFirst, onSecond⟩
  · rw [Point.same_iff.mp same]
    exact .refl second
  · have isFirst : first ∈ stops (ofWires ports wires).vertices wire :=
      (mem_stops_iff isWire (straight wire isWire)).mpr ⟨touch.atFirst, onFirst⟩
    have isSecond : second ∈ stops (ofWires ports wires).vertices wire :=
      (mem_stops_iff isWire (straight wire isWire)).mpr ⟨touch.atSecond, onSecond⟩
    exact (joined_members isFirst isSecond).mono fun _ _ isPair =>
      mem_edges.mpr ⟨wire, isWire, isPair⟩

/-- Chains of edges link the same points as chains of touching points. -/
theorem joined_iff_touching (straight : ∀ wire ∈ wires, wire.IsStraight) :
    Relation.EqvGen (Edge (ofWires ports wires).edges) first second ↔
      Relation.EqvGen (Touch ports wires) first second := by
  constructor
  · exact Relation.EqvGen.mono (fun _ _ isEdge => touch_of_edge straight isEdge) first second
  · intro touching
    have equivalence := Relation.EqvGen.is_equivalence (Edge (ofWires ports wires).edges)
    exact equivalence.eqvGen_iff.mp
      (touching.mono fun _ _ touch => joined_of_touch straight touch)

/-- The electrical nodes of straight wires are the classes of touching points. -/
theorem touchClasses_electricalNodes (straight : ∀ wire ∈ wires, wire.IsStraight) :
    TouchClasses ports wires (ofWires ports wires).electricalNodes := by
  have closed : (ofWires ports wires).Closed := closed_ofWires
  have joins := closed.joins
  have inOrder := closed.inOrder (Point.ascending_ordered _)
  constructor
  · intro point
    rw [endsAt_iff, ← covered_electricalNodes_iff]
    simp only [holds_iff]
    rfl
  · refine (inOrder.disjoint joins).imp fun disjoint point isFirst => ?_
    rw [Bool.eq_false_iff, ne_eq, holds_iff]
    exact disjoint (holds_iff.mp isFirst)
  · exact inOrder.nonempty
  · exact inOrder.ascending
  · exact inOrder.ordered
  · intro first second atFirst _
    rw [endsAt_iff] at atFirst
    rw [← joined_iff_touching straight]
    simp only [holds_iff]
    constructor
    · rintro ⟨points, isClass, isFirst, isSecond⟩
      exact joins.sound points isClass first isFirst second isSecond
    · intro joined
      obtain ⟨points, isClass, isFirst⟩ := covered_electricalNodes_iff.mpr atFirst
      exact ⟨points, isClass, isFirst, (joins.mem_iff isClass joined).mp isFirst⟩

/-! ## The classes are determined by touching -/

namespace TouchClasses

variable {classes : List (List (Point Rat))} (shares : TouchClasses ports wires classes)
  {points others : List (Point Rat)}

include shares

/-- Classes with a common point are the same. -/
theorem eq_of_mem (isClass : points ∈ classes) (isOther : others ∈ classes)
    (inPoints : point ∈ points) (inOthers : point ∈ others) : points = others := by
  have disjoint : classes.Pairwise List.Disjoint := shares.disjoint.imp fun apart point isFirst =>
    by simpa [Bool.eq_false_iff, holds_iff] using apart point (holds_iff.mpr isFirst)
  have symmetric : Std.Symm (List.Disjoint : List (Point Rat) → List (Point Rat) → Prop) :=
    ⟨fun _ _ apart _ isSecond isFirst => apart isFirst isSecond⟩
  by_contra different
  exact List.Pairwise.forall disjoint isClass isOther different inPoints inOthers

/-- A class has all the points that are linked to one of its points. -/
theorem mem_iff (isClass : points ∈ classes) (isFirst : first ∈ points) :
    second ∈ points ↔
      endsAt ports wires second = true ∧ Relation.EqvGen (Touch ports wires) first second := by
  have endsAtMember : ∀ point ∈ points, endsAt ports wires point = true := fun point isPoint =>
    (shares.covers point).mpr ⟨points, isClass, holds_iff.mpr isPoint⟩
  constructor
  · intro isSecond
    refine ⟨endsAtMember second isSecond, ?_⟩
    apply (shares.joined first second (endsAtMember first isFirst)
      (endsAtMember second isSecond)).mp
    exact ⟨points, isClass, holds_iff.mpr isFirst, holds_iff.mpr isSecond⟩
  · rintro ⟨atSecond, linked⟩
    obtain ⟨others, isOther, inOthers, inSecond⟩ :=
      (shares.joined first second (endsAtMember first isFirst) atSecond).mpr linked
    rw [shares.eq_of_mem isClass isOther isFirst (holds_iff.mp inOthers)]
    exact holds_iff.mp inSecond

variable {otherPorts : List (Point Rat)} {otherWires : List (Wire Rat)}
  {otherClasses : List (List (Point Rat))}

theorem mem_of_same (otherShares : TouchClasses otherPorts otherWires otherClasses)
    (sameEnds : endsAt ports wires = endsAt otherPorts otherWires)
    (sameTouch : Touch ports wires = Touch otherPorts otherWires) (isClass : points ∈ classes) :
    points ∈ otherClasses := by
  obtain ⟨first, isFirst⟩ := List.exists_mem_of_ne_nil points (shares.nonempty points isClass)
  have atFirst := ((shares.mem_iff isClass isFirst).mp isFirst).1
  rw [sameEnds] at atFirst
  obtain ⟨others, isOther, inOthers⟩ := (otherShares.covers first).mp atFirst
  have same : points = others := by
    apply Point.Ascending.eq_of_mem_iff (shares.ascending points isClass)
      (otherShares.ascending others isOther)
    intro point
    rw [shares.mem_iff isClass isFirst, otherShares.mem_iff isOther (holds_iff.mp inOthers),
      sameEnds, sameTouch]
  rwa [same]

/-- There is one way only to share out the points by touching. -/
theorem unique (otherShares : TouchClasses otherPorts otherWires otherClasses)
    (sameEnds : endsAt ports wires = endsAt otherPorts otherWires)
    (sameTouch : Touch ports wires = Touch otherPorts otherWires) : classes = otherClasses := by
  have irreflexive : Std.Irrefl LeastBefore := ⟨not_leastBefore_self⟩
  have antisymmetric : Std.Antisymm LeastBefore :=
    ⟨fun one other isBefore isBehind => absurd (isBefore.trans isBehind)
      (not_leastBefore_self one)⟩
  apply List.Pairwise.eq_of_mem_iff (r := LeastBefore) shares.ordered otherShares.ordered
  exact fun points => ⟨shares.mem_of_same otherShares sameEnds sameTouch,
    otherShares.mem_of_same shares sameEnds.symm sameTouch.symm⟩

end TouchClasses

end Network

end Schematic
