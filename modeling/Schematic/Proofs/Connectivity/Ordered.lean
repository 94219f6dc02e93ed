import Mathlib.Data.List.Sort
import Schematic.Proofs.Connectivity.Edges

/-!
# Ordered points

The vertices of a network, the stops of its wires and the points of its
electrical nodes are kept in order, each of them once.  So such a list is
determined by its members, and two members follow one another exactly when none
is between them.
-/

namespace Schematic

namespace Point

theorem before_iff {first second : Point Rat} :
    first.before second = true ↔
      first.x < second.x ∨ first.x = second.x ∧ first.y < second.y := by
  simp [before]

/-- The order of points as a relation. -/
def Before (first second : Point Rat) : Prop :=
  first.before second = true

theorem not_before_self (point : Point Rat) : ¬point.Before point := by
  simp [Before, before_iff]

theorem Before.trans {first second third : Point Rat} (one : first.Before second)
    (two : second.Before third) : first.Before third := by
  rw [Before, before_iff] at one two ⊢
  rcases one with one | ⟨sameOne, one⟩ <;> rcases two with two | ⟨sameTwo, two⟩
  · exact .inl (one.trans two)
  · exact .inl (sameTwo ▸ one)
  · exact .inl (sameOne ▸ two)
  · exact .inr ⟨sameOne.trans sameTwo, one.trans two⟩

theorem Before.not_before {first second : Point Rat} (one : first.Before second) :
    ¬second.Before first :=
  fun other => first.not_before_self (one.trans other)

theorem before_or_eq_or_before (first second : Point Rat) :
    first.Before second ∨ first = second ∨ second.Before first := by
  simp only [Before, before_iff]
  rcases lt_trichotomy first.x second.x with less | same | greater
  · exact .inl (.inl less)
  · rcases lt_trichotomy first.y second.y with less | sameY | greater
    · exact .inl (.inr ⟨same, less⟩)
    · exact .inr (.inl (eq_of_coordinates same sameY))
    · exact .inr (.inr (.inr ⟨same.symm, greater⟩))
  · exact .inr (.inr (.inl greater))

instance : Std.Irrefl Before := ⟨not_before_self⟩

instance : Std.Antisymm Before := ⟨fun _ _ one other => absurd other one.not_before⟩

/-- The points are in order, each of them once. -/
def Ascending (points : List (Point Rat)) : Prop :=
  points.Pairwise Before

theorem Ascending.eq_of_mem_iff {first second : List (Point Rat)} (firstAscends : Ascending first)
    (secondAscends : Ascending second) (same : ∀ point, point ∈ first ↔ point ∈ second) :
    first = second :=
  List.Pairwise.eq_of_mem_iff firstAscends secondAscends same

theorem Ascending.nodup {points : List (Point Rat)} (ascends : Ascending points) :
    points.Nodup :=
  ascends.imp fun isBefore => ne_of_irrefl isBefore

theorem ascending_insertOrdered {points : List (Point Rat)} (ascends : Ascending points)
    (point : Point Rat) : Ascending (insertOrdered point points) := by
  induction points with
  | nil => exact List.pairwise_singleton _ _
  | cons first rest ih =>
      obtain ⟨least, restAscends⟩ := List.pairwise_cons.mp ascends
      rw [insertOrdered]
      split
      · exact ascends
      · next different =>
        rw [same_iff] at different
        split
        · next isBefore =>
          refine List.pairwise_cons.mpr ⟨fun other isOther => ?_, ascends⟩
          rcases List.mem_cons.mp isOther with rfl | later
          · exact isBefore
          · exact Before.trans isBefore (least other later)
        · next notBefore =>
          refine List.pairwise_cons.mpr ⟨fun other isOther => ?_, ih restAscends⟩
          rcases mem_insertOrdered.mp isOther with rfl | later
          · rcases before_or_eq_or_before first other with isBefore | same | isBehind
            · exact isBefore
            · exact absurd same.symm different
            · exact absurd isBehind notBefore
          · exact least other later

theorem ascending_ordered (points : List (Point Rat)) : Ascending (ordered points) := by
  have sorted : ∀ start, Ascending start →
      Ascending (points.foldl (fun sorted point => insertOrdered point sorted) start) := by
    induction points with
    | nil => exact fun start ascends => ascends
    | cons point rest ih => exact fun start ascends => ih _ (ascending_insertOrdered ascends point)
  exact sorted [] List.Pairwise.nil

end Point

open Point

namespace Network

/-! ## Members that follow one another -/

theorem eq_of_short {points : List (Point Rat)}
    (short : ∀ first second rest, points = first :: second :: rest → False)
    {first second : Point Rat} (isFirst : first ∈ points) (isSecond : second ∈ points) :
    first = second := by
  cases points with
  | nil => cases isFirst
  | cons only rest =>
      cases rest with
      | nil => rw [List.mem_singleton.mp isFirst, List.mem_singleton.mp isSecond]
      | cons next rest => exact (short only next rest rfl).elim

/-- Members of an ordered list follow one another if none is between them. -/
theorem mem_neighbours_iff {points : List (Point Rat)} (ascends : Ascending points)
    {first second : Point Rat} :
    (first, second) ∈ neighbours points ↔
      first ∈ points ∧ second ∈ points ∧ first.Before second ∧
        ∀ point ∈ points, ¬(first.Before point ∧ point.Before second) := by
  fun_induction neighbours points with
  | case1 least next rest ih =>
      obtain ⟨behind, restAscends⟩ := List.pairwise_cons.mp ascends
      rw [List.mem_cons, ih restAscends]
      have isNext := List.mem_cons_self (a := next) (l := rest)
      constructor
      · rintro (same | ⟨isFirst, isSecond, isBefore, apart⟩)
        · obtain ⟨rfl, rfl⟩ := Prod.mk.inj same
          refine ⟨List.mem_cons_self, List.mem_cons_of_mem _ isNext, behind _ isNext, ?_⟩
          rintro point isPoint ⟨afterFirst, beforeSecond⟩
          rcases List.mem_cons.mp isPoint with rfl | later
          · exact not_before_self _ afterFirst
          · rcases List.mem_cons.mp later with rfl | later
            · exact not_before_self _ beforeSecond
            · exact ((List.pairwise_cons.mp restAscends).1 point later).not_before beforeSecond
        · refine ⟨List.mem_cons_of_mem _ isFirst, List.mem_cons_of_mem _ isSecond, isBefore, ?_⟩
          rintro point isPoint ⟨afterFirst, beforeSecond⟩
          rcases List.mem_cons.mp isPoint with rfl | later
          · exact (behind first isFirst).not_before afterFirst
          · exact apart point later ⟨afterFirst, beforeSecond⟩
      · rintro ⟨isFirst, isSecond, isBefore, apart⟩
        have secondLater : second ∈ next :: rest := by
          rcases List.mem_cons.mp isSecond with rfl | later
          · rcases List.mem_cons.mp isFirst with rfl | later
            · exact absurd isBefore (not_before_self _)
            · exact absurd isBefore (behind first later).not_before
          · exact later
        rcases List.mem_cons.mp isFirst with rfl | firstLater
        · left
          rcases List.mem_cons.mp secondLater with rfl | later
          · rfl
          · exact absurd ⟨behind next isNext, (List.pairwise_cons.mp restAscends).1 second later⟩
              (apart next (List.mem_cons_of_mem _ isNext))
        · exact .inr ⟨firstLater, secondLater, isBefore, fun point isPoint =>
            apart point (List.mem_cons_of_mem _ isPoint)⟩
  | case2 points short =>
      constructor
      · intro isPair
        cases isPair
      · rintro ⟨isFirst, isSecond, isBefore, -⟩
        rw [eq_of_short short isFirst isSecond] at isBefore
        exact absurd isBefore (not_before_self second)

/-- A member with another one behind it has a next one. -/
theorem exists_next {points : List (Point Rat)} (ascends : Ascending points)
    {first last : Point Rat} (isFirst : first ∈ points) (isLast : last ∈ points)
    (isBefore : first.Before last) : ∃ next, (first, next) ∈ neighbours points := by
  fun_induction neighbours points with
  | case1 least next rest ih =>
      obtain ⟨behind, restAscends⟩ := List.pairwise_cons.mp ascends
      rcases List.mem_cons.mp isFirst with rfl | firstLater
      · exact ⟨next, List.mem_cons_self⟩
      · rcases List.mem_cons.mp isLast with rfl | lastLater
        · exact absurd isBefore (behind first firstLater).not_before
        · obtain ⟨found, isPair⟩ := ih restAscends firstLater lastLater
          exact ⟨found, List.mem_cons_of_mem _ isPair⟩
  | case2 points short =>
      rw [eq_of_short short isFirst isLast] at isBefore
      exact absurd isBefore (not_before_self last)

/-- A member with another one in front of it has a previous one. -/
theorem exists_previous {points : List (Point Rat)} (ascends : Ascending points)
    {first last : Point Rat} (isFirst : first ∈ points) (isLast : last ∈ points)
    (isBefore : first.Before last) : ∃ previous, (previous, last) ∈ neighbours points := by
  fun_induction neighbours points generalizing first with
  | case1 least next rest ih =>
      obtain ⟨behind, restAscends⟩ := List.pairwise_cons.mp ascends
      rcases List.mem_cons.mp isLast with rfl | lastLater
      · rcases List.mem_cons.mp isFirst with rfl | firstLater
        · exact absurd isBefore (not_before_self _)
        · exact absurd isBefore (behind first firstLater).not_before
      · rcases List.mem_cons.mp lastLater with rfl | later
        · exact ⟨least, List.mem_cons_self⟩
        · have afterNext := (List.pairwise_cons.mp restAscends).1 last later
          obtain ⟨found, isPair⟩ := ih restAscends List.mem_cons_self lastLater afterNext
          exact ⟨found, List.mem_cons_of_mem _ isPair⟩
  | case2 points short =>
      rw [eq_of_short short isFirst isLast] at isBefore
      exact absurd isBefore (not_before_self last)

end Network

end Schematic
