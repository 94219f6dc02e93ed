import Schematic.Proofs.Connectivity.Ordered

/-!
# The order of electrical nodes

The classes of joined vertices are merged while they are kept in order: the
points of each class, and the classes by their first points.  This file proves
that joining the classes at the ends of an edge keeps both orders, because
classes have no point in common.
-/

namespace Schematic

open Point

namespace Network

/-- The first point of a class is before the first point of another one. -/
def LeastBefore (first second : List (Point Rat)) : Prop :=
  ∃ one ∈ first.head?, ∃ other ∈ second.head?, one.Before other

/-- Classes in order, none of which is empty. -/
structure InOrder (classes : List (List (Point Rat))) : Prop where
  nonempty : ∀ points ∈ classes, points ≠ []
  ascending : ∀ points ∈ classes, Ascending points
  ordered : classes.Pairwise LeastBefore

variable {edges : List (Point Rat × Point Rat)} {classes : List (List (Point Rat))}
  {edge : Point Rat × Point Rat}

theorem not_leastBefore_self (points : List (Point Rat)) : ¬LeastBefore points points := by
  rintro ⟨one, isOne, other, isOther, isBefore⟩
  obtain rfl : one = other := Option.some_inj.mp (isOne.symm.trans isOther)
  exact not_before_self one isBefore

theorem LeastBefore.trans {first second third : List (Point Rat)}
    (one : LeastBefore first second) (two : LeastBefore second third) :
    LeastBefore first third := by
  obtain ⟨least, isLeast, middle, isMiddle, isBefore⟩ := one
  obtain ⟨same, isSame, last, isLast, middleBefore⟩ := two
  obtain rfl : middle = same := Option.some_inj.mp (isMiddle.symm.trans isSame)
  exact ⟨least, isLeast, last, isLast, isBefore.trans middleBefore⟩

/-- Classes in order have no point in common, if common points make them the same. -/
theorem InOrder.disjoint (inOrder : InOrder classes) (joins : Joins edges classes) :
    classes.Pairwise List.Disjoint := by
  refine inOrder.ordered.imp_of_mem ?_
  intro first second isFirst isSecond isBefore point inFirst inSecond
  rw [joins.disjoint first isFirst second isSecond point inFirst inSecond] at isBefore
  exact not_leastBefore_self second isBefore

/-! ## Merging -/

theorem mem_mergeOrdered {first second : List (Point Rat)} {point : Point Rat} :
    point ∈ mergeOrdered first second ↔ point ∈ first ∨ point ∈ second :=
  List.mem_merge

theorem ascending_mergeOrdered {first second : List (Point Rat)} (firstAscends : Ascending first)
    (secondAscends : Ascending second) (disjoint : first.Disjoint second) :
    Ascending (mergeOrdered first second) := by
  have notBehind {points : List (Point Rat)} (ascends : Ascending points) :
      points.Pairwise fun one other => (!other.before one) = true :=
    ascends.imp fun isBefore => by simpa [Point.Before] using isBefore.not_before
  have merged : (mergeOrdered first second).Pairwise fun one other =>
      (!other.before one) = true := by
    apply List.pairwise_merge
    · intro one other third oneOther otherThird
      simp only [Bool.not_eq_true', Bool.eq_false_iff] at oneOther otherThird ⊢
      intro thirdBefore
      rcases before_or_eq_or_before one other with isBefore | rfl | isBehind
      · exact otherThird (Before.trans thirdBefore isBefore)
      · exact otherThird thirdBefore
      · exact oneOther isBehind
    · intro one other
      by_cases isBehind : other.before one = true
      · simp [Bool.eq_false_iff.mpr (Before.not_before isBehind)]
      · simp [isBehind]
    · exact notBehind firstAscends
    · exact notBehind secondAscends
  have once : (mergeOrdered first second).Nodup := by
    rw [mergeOrdered, (List.merge_perm_append _).nodup_iff]
    exact firstAscends.nodup.append secondAscends.nodup disjoint
  refine (merged.and once).imp fun {one other} both => ?_
  rcases before_or_eq_or_before one other with isBefore | same | isBehind
  · exact isBefore
  · exact absurd same both.2
  · rw [show other.before one = true from isBehind] at both
    exact absurd both.1 (by decide)

theorem ascending_foldl_mergeOrdered {start : List (Point Rat)} (startAscends : Ascending start)
    (ascending : ∀ points ∈ classes, Ascending points)
    (disjoint : (start :: classes).Pairwise List.Disjoint) :
    Ascending (classes.foldl mergeOrdered start) := by
  induction classes generalizing start with
  | nil => exact startAscends
  | cons points rest ih =>
      obtain ⟨startDisjoint, restDisjoint⟩ := List.pairwise_cons.mp disjoint
      obtain ⟨pointsDisjoint, othersDisjoint⟩ := List.pairwise_cons.mp restDisjoint
      apply ih
      · exact ascending_mergeOrdered startAscends (ascending points List.mem_cons_self)
          (startDisjoint points List.mem_cons_self)
      · exact fun other isOther => ascending other (List.mem_cons_of_mem _ isOther)
      · refine List.pairwise_cons.mpr ⟨fun other isOther point isMerged inOther => ?_,
          othersDisjoint⟩
        rcases mem_mergeOrdered.mp isMerged with inStart | inPoints
        · exact startDisjoint other (List.mem_cons_of_mem _ isOther) inStart inOther
        · exact pointsDisjoint other isOther inPoints inOther

/-- The class that an edge makes is in order. -/
theorem InOrder.ascending_joinedClass (inOrder : InOrder classes) (joins : Joins edges classes) :
    Ascending (joinedClass classes edge) := by
  apply ascending_foldl_mergeOrdered List.Pairwise.nil
  · exact fun points isTouched => inOrder.ascending points (List.mem_of_mem_filter isTouched)
  · have touchedDisjoint := (inOrder.disjoint joins).filter fun points =>
      points.any edge.1.same || points.any edge.2.same
    exact List.pairwise_cons.mpr ⟨fun other _ => List.disjoint_nil_left other, touchedDisjoint⟩

/-! ## Inserting -/

theorem ordered_insertClass {points : List (Point Rat)} (notEmpty : points ≠ [])
    (nonempty : ∀ other ∈ classes, other ≠ []) (ordered : classes.Pairwise LeastBefore)
    (disjoint : ∀ other ∈ classes, points.Disjoint other) :
    (insertClass points classes).Pairwise LeastBefore := by
  fun_induction insertClass points classes with
  | case1 => exact List.pairwise_singleton _ _
  | case2 first rest least other isOther isLeast isBefore ih =>
      obtain ⟨firstBefore, restOrdered⟩ := List.pairwise_cons.mp ordered
      have restInserted := ih (fun later isLater => nonempty later (List.mem_cons_of_mem _ isLater))
        restOrdered (fun later isLater => disjoint later (List.mem_cons_of_mem _ isLater))
      refine List.pairwise_cons.mpr ⟨fun found isFound => ?_, restInserted⟩
      rcases mem_insertClass.mp isFound with rfl | later
      · exact ⟨other, isOther, least, isLeast, isBefore⟩
      · exact firstBefore found later
  | case3 first rest least other isOther isLeast notBefore =>
      have isBefore : LeastBefore points first := by
        refine ⟨least, isLeast, other, isOther, ?_⟩
        rcases before_or_eq_or_before least other with isBefore | rfl | isBehind
        · exact isBefore
        · exact (disjoint first List.mem_cons_self (List.mem_of_mem_head? isLeast)
            (List.mem_of_mem_head? isOther)).elim
        · exact absurd isBehind notBefore
      refine List.pairwise_cons.mpr ⟨fun found isFound => ?_, ordered⟩
      rcases List.mem_cons.mp isFound with rfl | later
      · exact isBefore
      · exact isBefore.trans ((List.pairwise_cons.mp ordered).1 found later)
  | case4 first rest unheaded =>
      exact (unheaded _ _ (List.head?_eq_some_head notEmpty)
        (List.head?_eq_some_head (nonempty first List.mem_cons_self))).elim

/-- Joining the classes at the ends of an edge keeps them in order. -/
theorem InOrder.joinClasses (inOrder : InOrder classes) (joins : Joins edges classes)
    (starts : Covered classes edge.1) : InOrder (joinClasses classes edge) := by
  have joinedNonempty : joinedClass classes edge ≠ [] := by
    obtain ⟨points, isClass, isStart⟩ := starts
    exact List.ne_nil_of_mem (mem_joinedClass.mpr ⟨points, isClass, .inl isStart, isStart⟩)
  constructor
  · intro points isClass
    rcases mem_joinClasses.mp isClass with rfl | ⟨isOld, -⟩
    · exact joinedNonempty
    · exact inOrder.nonempty points isOld
  · intro points isClass
    rcases mem_joinClasses.mp isClass with rfl | ⟨isOld, -⟩
    · exact inOrder.ascending_joinedClass joins
    · exact inOrder.ascending points isOld
  · rw [Network.joinClasses, List.partition_eq_filter_filter]
    apply ordered_insertClass joinedNonempty
    · exact fun other isOther => inOrder.nonempty other (List.mem_of_mem_filter isOther)
    · exact inOrder.ordered.filter _
    · intro other isOther point inJoined inOther
      obtain ⟨isClass, untouched⟩ := List.mem_filter.mp isOther
      obtain ⟨points, isOld, touched, inPoints⟩ := mem_joinedClass.mp inJoined
      obtain rfl := joins.disjoint points isOld other isClass point inPoints inOther
      have isTouched : (points.any edge.1.same || points.any edge.2.same) = true := by
        simpa only [Bool.or_eq_true, any_same_iff, touches] using touched
      simp [isTouched] at untouched

theorem InOrder.foldl (inOrder : InOrder classes) (joins : Joins edges classes)
    {others : List (Point Rat × Point Rat)}
    (covered : ∀ other ∈ others, Covered classes other.1 ∧ Covered classes other.2) :
    InOrder (others.foldl Network.joinClasses classes) := by
  induction others generalizing edges classes with
  | nil => exact inOrder
  | cons other rest ih =>
      obtain ⟨starts, finishes⟩ := covered other List.mem_cons_self
      apply ih (inOrder.joinClasses joins starts) (joins.joinClasses starts finishes)
      intro later isLater
      have ⟨laterStart, laterFinish⟩ := covered later (List.mem_cons_of_mem other isLater)
      exact ⟨laterStart.joinClasses, laterFinish.joinClasses⟩

theorem inOrder_singletons {vertices : List (Point Rat)} (ascends : Ascending vertices) :
    InOrder (vertices.map ([·])) := by
  constructor
  · simp
  · intro points isClass
    obtain ⟨vertex, -, rfl⟩ := List.mem_map.mp isClass
    exact List.pairwise_singleton _ vertex
  · exact List.pairwise_map.mpr (ascends.imp fun isBefore => ⟨_, rfl, _, rfl, isBefore⟩)

/-- Joining classes adds no points to them. -/
theorem mem_of_mem_foldl {others : List (Point Rat × Point Rat)} {points : List (Point Rat)}
    (isClass : points ∈ others.foldl joinClasses classes) {point : Point Rat}
    (isMember : point ∈ points) : Covered classes point := by
  induction others generalizing classes with
  | nil => exact ⟨points, isClass, isMember⟩
  | cons other rest ih =>
      obtain ⟨found, isFound, inFound⟩ := ih isClass
      rcases mem_joinClasses.mp isFound with rfl | ⟨isOld, -⟩
      · obtain ⟨old, isOld, -, inOld⟩ := mem_joinedClass.mp inFound
        exact ⟨old, isOld, inOld⟩
      · exact ⟨found, isOld, inFound⟩

/-- The electrical nodes of a network are in order. -/
theorem Closed.inOrder {network : Network Rat} (closed : network.Closed)
    (ascends : Ascending network.vertices) : InOrder network.electricalNodes :=
  (inOrder_singletons ascends).foldl (joins_singletons network.vertices) fun edge isEdge =>
    ⟨covered_vertices (closed edge isEdge).1, covered_vertices (closed edge isEdge).2⟩

/-- The electrical nodes of a network have all its vertices as points, and no others. -/
theorem covered_electricalNodes_iff {network : Network Rat} {point : Point Rat} :
    Covered network.electricalNodes point ↔ point ∈ network.vertices := by
  constructor
  · rintro ⟨points, isClass, isMember⟩
    obtain ⟨single, isSingle, inSingle⟩ := mem_of_mem_foldl isClass isMember
    obtain ⟨vertex, isVertex, rfl⟩ := List.mem_map.mp isSingle
    rwa [List.mem_singleton.mp inSingle]
  · exact fun isVertex => (covered_vertices isVertex).foldl network.edges

end Network

end Schematic
