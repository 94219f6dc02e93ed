import Mathlib.Logic.Relation
import Schematic.Connectivity
import Schematic.Proofs.Layout.Frames

/-!
# Electrical nodes are classes

The electrical nodes of a network are made from single vertices by joining the
classes at the two ends of every edge.  This file proves that in the end two
vertices are in one class exactly when a chain of edges leads from one to the
other.
-/

namespace Schematic

namespace Network

/-- Two points that are joined by some of the given edges. -/
def Edge (edges : List (Point Rat × Point Rat)) (first second : Point Rat) : Prop :=
  (first, second) ∈ edges

/-- Classes of points, of which each is what the edges join. -/
structure Joins (edges : List (Point Rat × Point Rat)) (classes : List (List (Point Rat))) :
    Prop where
  /-- The points of a class are joined. -/
  sound : ∀ points ∈ classes, ∀ first ∈ points, ∀ second ∈ points,
    Relation.EqvGen (Edge edges) first second
  /-- The ends of an edge are in one class. -/
  closed : ∀ edge ∈ edges, ∃ points ∈ classes, edge.1 ∈ points ∧ edge.2 ∈ points
  /-- Two classes have no point in common. -/
  disjoint : ∀ first ∈ classes, ∀ second ∈ classes, ∀ point ∈ first, point ∈ second →
    first = second

theorem any_same_iff {points : List (Point Rat)} {point : Point Rat} :
    points.any point.same = true ↔ point ∈ points := by
  simp [Point.same_iff]

theorem mem_insertClass {points found : List (Point Rat)} {classes : List (List (Point Rat))} :
    found ∈ insertClass points classes ↔ found = points ∨ found ∈ classes := by
  fun_induction insertClass points classes with
  | case1 => simp
  | case2 first rest least other _ _ before ih =>
      rw [List.mem_cons, ih, List.mem_cons]
      tauto
  | case3 => simp
  | case4 => simp

theorem mem_foldl_mergeOrdered {classes : List (List (Point Rat))} {start : List (Point Rat)}
    {point : Point Rat} :
    point ∈ classes.foldl mergeOrdered start ↔
      point ∈ start ∨ ∃ points ∈ classes, point ∈ points := by
  induction classes generalizing start with
  | nil => simp
  | cons points rest ih =>
      rw [List.foldl_cons, ih, mergeOrdered, List.mem_merge]
      simp [or_assoc]

/-- Whether an edge ends in a class. -/
def touches (edge : Point Rat × Point Rat) (points : List (Point Rat)) : Prop :=
  edge.1 ∈ points ∨ edge.2 ∈ points

/-- The class that an edge makes of all classes which it touches. -/
def joinedClass (classes : List (List (Point Rat))) (edge : Point Rat × Point Rat) :
    List (Point Rat) :=
  (classes.filter fun points =>
    points.any edge.1.same || points.any edge.2.same).foldl mergeOrdered []

theorem mem_joinedClass {classes : List (List (Point Rat))} {edge : Point Rat × Point Rat}
    {point : Point Rat} :
    point ∈ joinedClass classes edge ↔ ∃ points ∈ classes, touches edge points ∧
      point ∈ points := by
  simp only [joinedClass, mem_foldl_mergeOrdered, List.not_mem_nil, false_or, List.mem_filter,
    Bool.or_eq_true, any_same_iff, touches, and_assoc]

theorem mem_joinClasses {classes : List (List (Point Rat))} {edge : Point Rat × Point Rat}
    {found : List (Point Rat)} :
    found ∈ joinClasses classes edge ↔
      found = joinedClass classes edge ∨ (found ∈ classes ∧ ¬touches edge found) := by
  rw [joinClasses, List.partition_eq_filter_filter]
  simp only [mem_insertClass, List.mem_filter, touches, Function.comp, Bool.not_eq_true',
    Bool.eq_false_iff, ne_eq, Bool.or_eq_true, any_same_iff]
  rfl

section

variable {edges : List (Point Rat × Point Rat)} {classes : List (List (Point Rat))}
  {edge : Point Rat × Point Rat}

/-- A point of some class. -/
def Covered (classes : List (List (Point Rat))) (point : Point Rat) : Prop :=
  ∃ points ∈ classes, point ∈ points

theorem Covered.joinClasses {point : Point Rat} (covered : Covered classes point) :
    Covered (joinClasses classes edge) point := by
  obtain ⟨points, isClass, member⟩ := covered
  by_cases touched : touches edge points
  · exact ⟨_, mem_joinClasses.mpr (.inl rfl),
      mem_joinedClass.mpr ⟨points, isClass, touched, member⟩⟩
  · exact ⟨points, mem_joinClasses.mpr (.inr ⟨isClass, touched⟩), member⟩

/-- A class that an edge touches is joined to the start of the edge. -/
theorem Joins.joined_start (joins : Joins edges classes) {points : List (Point Rat)}
    (isClass : points ∈ classes) (touched : touches edge points) {point : Point Rat}
    (member : point ∈ points) : Relation.EqvGen (Edge (edges ++ [edge])) point edge.1 := by
  have earlier : ∀ other ∈ points, Relation.EqvGen (Edge (edges ++ [edge])) point other :=
    fun other isOther => (joins.sound points isClass point member other isOther).mono
      fun _ _ isEdge => List.mem_append_left _ isEdge
  rcases touched with atStart | atFinish
  · exact earlier edge.1 atStart
  · have last : Relation.EqvGen (Edge (edges ++ [edge])) edge.1 edge.2 :=
      .rel _ _ (List.mem_append_right _ List.mem_cons_self)
    exact (earlier edge.2 atFinish).trans _ _ _ (last.symm _ _)

/-- Joining the classes at the ends of an edge makes classes of one more edge. -/
theorem Joins.joinClasses (joins : Joins edges classes) (starts : Covered classes edge.1)
    (finishes : Covered classes edge.2) :
    Joins (edges ++ [edge]) (joinClasses classes edge) where
  sound := by
    intro points isClass first isFirst second isSecond
    rcases mem_joinClasses.mp isClass with rfl | ⟨isOld, -⟩
    · obtain ⟨firstPoints, firstOld, firstTouched, isFirst⟩ := mem_joinedClass.mp isFirst
      obtain ⟨secondPoints, secondOld, secondTouched, isSecond⟩ := mem_joinedClass.mp isSecond
      have fromFirst := joins.joined_start firstOld firstTouched isFirst
      have fromSecond := joins.joined_start secondOld secondTouched isSecond
      exact fromFirst.trans _ _ _ (fromSecond.symm _ _)
    · exact (joins.sound points isOld first isFirst second isSecond).mono
        fun _ _ isEdge => List.mem_append_left _ isEdge
  closed := by
    intro other isEdge
    rcases List.mem_append.mp isEdge with isOld | isNew
    · obtain ⟨points, isClass, isStart, isFinish⟩ := joins.closed other isOld
      by_cases touched : touches edge points
      · exact ⟨_, mem_joinClasses.mpr (.inl rfl),
          mem_joinedClass.mpr ⟨points, isClass, touched, isStart⟩,
          mem_joinedClass.mpr ⟨points, isClass, touched, isFinish⟩⟩
      · exact ⟨points, mem_joinClasses.mpr (.inr ⟨isClass, touched⟩), isStart, isFinish⟩
    · obtain rfl := List.mem_singleton.mp isNew
      obtain ⟨first, firstClass, isStart⟩ := starts
      obtain ⟨second, secondClass, isFinish⟩ := finishes
      exact ⟨_, mem_joinClasses.mpr (.inl rfl),
        mem_joinedClass.mpr ⟨first, firstClass, .inl isStart, isStart⟩,
        mem_joinedClass.mpr ⟨second, secondClass, .inr isFinish, isFinish⟩⟩
  disjoint := by
    have separate : ∀ points ∈ classes, ¬touches edge points →
        ∀ point ∈ points, point ∉ joinedClass classes edge := by
      intro points isClass untouched point member isJoined
      obtain ⟨other, otherClass, touched, isOther⟩ := mem_joinedClass.mp isJoined
      have same := joins.disjoint points isClass other otherClass point member isOther
      exact untouched (same ▸ touched)
    intro first firstClass second secondClass point isFirst isSecond
    rcases mem_joinClasses.mp firstClass with rfl | ⟨firstOld, firstFree⟩ <;>
      rcases mem_joinClasses.mp secondClass with rfl | ⟨secondOld, secondFree⟩
    · rfl
    · exact absurd isFirst (separate second secondOld secondFree point isSecond)
    · exact absurd isSecond (separate first firstOld firstFree point isFirst)
    · exact joins.disjoint first firstOld second secondOld point isFirst isSecond

theorem Joins.foldl (joins : Joins edges classes) {others : List (Point Rat × Point Rat)}
    (covered : ∀ other ∈ others, Covered classes other.1 ∧ Covered classes other.2) :
    Joins (edges ++ others) (others.foldl Network.joinClasses classes) := by
  induction others generalizing edges classes with
  | nil => simpa using joins
  | cons other rest ih =>
      obtain ⟨starts, finishes⟩ := covered other List.mem_cons_self
      have joined := ih (joins.joinClasses starts finishes) fun later member =>
        have ⟨laterStart, laterFinish⟩ := covered later (List.mem_cons_of_mem other member)
        ⟨laterStart.joinClasses, laterFinish.joinClasses⟩
      simpa using joined

theorem Covered.foldl {point : Point Rat} (covered : Covered classes point)
    (others : List (Point Rat × Point Rat)) :
    Covered (others.foldl Network.joinClasses classes) point := by
  induction others generalizing classes with
  | nil => exact covered
  | cons other rest ih => exact ih covered.joinClasses

/-- Joined points are in the same classes. -/
theorem Joins.mem_iff (joins : Joins edges classes) {points : List (Point Rat)}
    (isClass : points ∈ classes) {first second : Point Rat}
    (joined : Relation.EqvGen (Edge edges) first second) : first ∈ points ↔ second ∈ points := by
  induction joined with
  | rel start finish isEdge =>
      obtain ⟨found, foundClass, isStart, isFinish⟩ := joins.closed _ isEdge
      constructor
      · intro member
        exact joins.disjoint points isClass found foundClass start member isStart ▸ isFinish
      · intro member
        exact joins.disjoint points isClass found foundClass finish member isFinish ▸ isStart
  | refl => rfl
  | symm _ _ _ ih => exact ih.symm
  | trans _ _ _ _ _ ihFirst ihSecond => exact ihFirst.trans ihSecond

end

/-! ## The electrical nodes of a network -/

theorem joins_singletons (vertices : List (Point Rat)) : Joins [] (vertices.map ([·])) where
  sound := by
    intro points isClass first isFirst second isSecond
    obtain ⟨vertex, -, rfl⟩ := List.mem_map.mp isClass
    rw [List.mem_singleton.mp isFirst, List.mem_singleton.mp isSecond]
    exact .refl vertex
  closed := by simp
  disjoint := by
    intro first firstClass second secondClass point isFirst isSecond
    obtain ⟨one, -, rfl⟩ := List.mem_map.mp firstClass
    obtain ⟨other, -, rfl⟩ := List.mem_map.mp secondClass
    rw [← List.mem_singleton.mp isFirst, ← List.mem_singleton.mp isSecond]

/-- The edges of a network end at its vertices. -/
def Closed (network : Network Rat) : Prop :=
  ∀ edge ∈ network.edges, edge.1 ∈ network.vertices ∧ edge.2 ∈ network.vertices

theorem covered_vertices {network : Network Rat} {vertex : Point Rat}
    (isVertex : vertex ∈ network.vertices) :
    Covered (network.vertices.map ([·])) vertex :=
  ⟨[vertex], List.mem_map.mpr ⟨vertex, isVertex, rfl⟩, List.mem_singleton_self vertex⟩

theorem Closed.joins {network : Network Rat} (closed : network.Closed) :
    Joins network.edges network.electricalNodes := by
  have joined := (joins_singletons network.vertices).foldl fun edge isEdge =>
    ⟨covered_vertices (closed edge isEdge).1, covered_vertices (closed edge isEdge).2⟩
  simpa [electricalNodes] using joined

theorem classOf?_eq_some {classes : List (List (Point Rat))} {point : Point Rat}
    (covered : Covered classes (key point)) :
    ∃ points ∈ classes, key point ∈ points ∧ classOf? classes point = some points := by
  obtain ⟨points, isClass, member⟩ := covered
  have found : (classes.find? fun points => points.any (key point).same).isSome := by
    rw [List.find?_isSome]
    exact ⟨points, isClass, any_same_iff.mpr member⟩
  obtain ⟨first, isFirst⟩ := Option.isSome_iff_exists.mp found
  have contains := List.find?_some isFirst
  exact ⟨first, List.mem_of_find?_eq_some isFirst, any_same_iff.mp contains, isFirst⟩

/-- Vertices have a common electrical node exactly when edges join them. -/
theorem Closed.nodeOf?_eq_iff {network : Network Rat} (closed : network.Closed)
    {first second : Point Rat} (firstVertex : key first ∈ network.vertices)
    (secondVertex : key second ∈ network.vertices) :
    network.nodeOf? first = network.nodeOf? second ↔
      Relation.EqvGen (Edge network.edges) (key first) (key second) := by
  have joins := closed.joins
  obtain ⟨one, oneClass, isFirst, firstNode⟩ :=
    classOf?_eq_some ((covered_vertices firstVertex).foldl network.edges)
  obtain ⟨other, otherClass, isSecond, secondNode⟩ :=
    classOf?_eq_some ((covered_vertices secondVertex).foldl network.edges)
  change classOf? _ _ = classOf? _ _ ↔ _
  rw [electricalNodes, firstNode, secondNode, Option.some_inj]
  constructor
  · rintro rfl
    exact joins.sound one oneClass _ isFirst _ isSecond
  · intro joined
    exact joins.disjoint one oneClass other otherClass _
      ((joins.mem_iff oneClass joined).mp isFirst) isSecond

theorem nodeOf?_isSome {network : Network Rat} {point : Point Rat}
    (isVertex : key point ∈ network.vertices) : (network.nodeOf? point).isSome := by
  obtain ⟨points, -, -, found⟩ :=
    classOf?_eq_some ((covered_vertices isVertex).foldl network.edges)
  exact Option.isSome_of_eq_some found

end Network

end Schematic
