import Mathlib.Data.List.Chain
import Schematic.Proofs.Layout.Wiring

/-!
# Lines in pieces

A bus, a rail or a signal line is drawn in several wires.  They make one line if each
of them starts where the one before it ends: then they do not overlap, and together
they cover all that is between the two ends of the line.
-/

namespace Schematic

/-- Pieces that follow one another along an axis, from `low` to `high`. -/
inductive Spans : (low : Rat) → List (Rat × Rat) → (high : Rat) → Prop where
  | nil (place : Rat) : Spans place [] place
  | cons {low middle high : Rat} {pieces : List (Rat × Rat)} :
      low ≤ middle → Spans middle pieces high → Spans low ((low, middle) :: pieces) high

/-- What pieces in a row have to do to fill a line. -/
structure Fills (pieces : List (Rat × Rat)) (low high : Rat) : Prop where
  /-- Each piece ends before the later ones start. -/
  apart : pieces.Pairwise fun first second => first.2 ≤ second.1
  /-- There is no gap between two pieces that follow one another. -/
  joined : pieces.IsChain fun first second => first.2 = second.1
  /-- Exactly what is between the ends of the line is covered. -/
  covered : pieces ≠ [] → ∀ place,
    (∃ piece ∈ pieces, piece.1 ≤ place ∧ place ≤ piece.2) ↔ low ≤ place ∧ place ≤ high
  /-- No pieces are needed for a line without extent only. -/
  empty : pieces = [] → low = high

namespace Spans

variable {low middle high place : Rat} {pieces others : List (Rat × Rat)}

theorem le (spans : Spans low pieces high) : low ≤ high := by
  induction spans with
  | nil => exact le_rfl
  | cons ordered _ ih => exact ordered.trans ih

theorem append (spans : Spans low pieces middle) (next : Spans middle others high) :
    Spans low (pieces ++ others) high := by
  induction spans with
  | nil => exact next
  | cons ordered _ ih => exact .cons ordered (ih next)

theorem bounds (spans : Spans low pieces high) :
    ∀ piece ∈ pieces, low ≤ piece.1 ∧ piece.1 ≤ piece.2 ∧ piece.2 ≤ high := by
  induction spans with
  | nil => simp
  | cons ordered rest ih =>
      intro piece isPiece
      rcases List.mem_cons.mp isPiece with rfl | later
      · exact ⟨le_rfl, ordered, rest.le⟩
      · obtain ⟨isLow, isOrdered, isHigh⟩ := ih piece later
        exact ⟨ordered.trans isLow, isOrdered, isHigh⟩

theorem apart (spans : Spans low pieces high) :
    pieces.Pairwise fun first second => first.2 ≤ second.1 := by
  induction spans with
  | nil => exact List.Pairwise.nil
  | cons _ rest ih =>
      exact List.pairwise_cons.mpr ⟨fun piece later => (rest.bounds piece later).1, ih⟩

theorem joined (spans : Spans low pieces high) :
    pieces.IsChain fun first second => first.2 = second.1 := by
  induction spans with
  | nil => exact List.IsChain.nil
  | cons _ rest ih =>
      cases rest with
      | nil => exact List.IsChain.singleton _
      | cons => exact List.isChain_cons_cons.mpr ⟨rfl, ih⟩

/-- A place on the line is on one of its pieces. -/
theorem exists_piece (spans : Spans low pieces high) (notNone : pieces ≠ [])
    (afterLow : low ≤ place) (beforeHigh : place ≤ high) :
    ∃ piece ∈ pieces, piece.1 ≤ place ∧ place ≤ piece.2 := by
  induction spans with
  | nil => exact absurd rfl notNone
  | @cons low middle high pieces ordered rest ih =>
      by_cases inFirst : place ≤ middle
      · exact ⟨_, List.mem_cons_self, afterLow, inFirst⟩
      · have behind := lt_of_not_ge inFirst
        have someLeft : pieces ≠ [] := by
          rintro rfl
          cases rest
          exact inFirst beforeHigh
        obtain ⟨piece, isPiece, isOn⟩ := ih someLeft behind.le beforeHigh
        exact ⟨piece, List.mem_cons_of_mem _ isPiece, isOn⟩

theorem fills (spans : Spans low pieces high) : Fills pieces low high where
  apart := spans.apart
  joined := spans.joined
  covered := by
    intro notNone place
    constructor
    · rintro ⟨piece, isPiece, afterStart, beforeEnd⟩
      obtain ⟨isLow, -, isHigh⟩ := spans.bounds piece isPiece
      exact ⟨isLow.trans afterStart, beforeEnd.trans isHigh⟩
    · rintro ⟨afterLow, beforeHigh⟩
      exact spans.exists_piece notNone afterLow beforeHigh
  empty := by
    rintro rfl
    cases spans
    rfl

end Spans

section

variable {β : Type} {height : β → Rat} {first : β} {rest : List β}

/-- The members of a row are between the first of them and the last. -/
theorem between_ends (ordered : (first :: rest).Pairwise fun one other => height one ≤ height other)
    {member : β} (isMember : member ∈ first :: rest) :
    height first ≤ height member ∧ height member ≤ height (rest.getLastD first) := by
  induction rest generalizing first member with
  | nil =>
      rw [List.mem_singleton.mp isMember]
      exact ⟨le_rfl, le_rfl⟩
  | cons second rest ih =>
      obtain ⟨below, later⟩ := List.pairwise_cons.mp ordered
      have next := below second List.mem_cons_self
      rw [List.getLastD_cons]
      rcases List.mem_cons.mp isMember with rfl | isLater
      · exact ⟨le_rfl, next.trans (ih later List.mem_cons_self).2⟩
      · obtain ⟨low, high⟩ := ih later isLater
        exact ⟨next.trans low, high⟩

/-- The steps from each member of a row to the next one make a line. -/
theorem spans_neighbours
    (ordered : (first :: rest).Pairwise fun one other => height one ≤ height other) :
    Spans (height first)
      ((Network.neighbours (first :: rest)).map fun pair => (height pair.1, height pair.2))
      (height (rest.getLastD first)) := by
  induction rest generalizing first with
  | nil => exact .nil _
  | cons second rest ih =>
      obtain ⟨below, later⟩ := List.pairwise_cons.mp ordered
      rw [Network.neighbours, List.map_cons, List.getLastD_cons]
      exact .cons (below second List.mem_cons_self) (ih later)

end

/-! ## Wires between points -/

/-- The wire between two points, unless they are the same one. -/
def Wire.between (start finish : Point Rat) : List (Wire Rat) :=
  if start = finish then [] else [⟨start, finish⟩]

theorem Frame.point_injective (frame : Frame Rat) : Function.Injective frame.point := by
  intro first second same
  have sameX := congrArg Point.x same
  have sameY := congrArg Point.y same
  cases rotated : frame.rotated <;>
    simp only [Frame.point, Frame.offset, rotated, Point.add_x, Point.add_y, Point.transposed,
      add_right_inj, if_true, if_false, Bool.false_eq_true] at sameX sameY
  · exact Point.eq_of_coordinates sameX sameY
  · exact Point.eq_of_coordinates sameY sameX

/-- What a frame connects is connected in the drawing. -/
theorem Frame.connect_eq (frame : Frame Rat) (start finish : Point Rat) :
    frame.connect start finish = Wire.between (frame.point start) (frame.point finish) := by
  by_cases same : start = finish
  · simp [Frame.connect, Wire.between, same, Point.same]
  · have apart := frame.point_injective.ne same
    have different : ¬start.same finish = true := fun isSame => same (Point.same_iff.mp isSame)
    rw [Frame.connect, if_neg different, Wire.between, if_neg apart]
    rfl

end Schematic
