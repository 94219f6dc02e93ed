import Mathlib.Tactic.SplitIfs
import Schematic.Connectivity
import Schematic.Proofs.Layout.Frames
import Schematic.Proofs.Layout.Related
import Schematic.Proofs.Number.Ranks

/-!
# Networks of ranked scalars

A network is built by comparing coordinates.  So the network of some points and
wires has at every place what the network of their ranks has there.
-/

namespace Schematic

variable {α : Type} [Scalar α] [Scalar.Ranked α]

namespace Scalar.Ranked

variable {first second : α} {firstRank secondRank : Rat}

theorem unique {value : α} {rank other : Rat} (one : HasRank value rank)
    (two : HasRank value other) : rank = other := by
  have notLess : ¬value < value := (lt_iff one one).not.mpr (lt_irrefl rank)
  rcases lt_trichotomy rank other with less | same | greater
  · exact absurd ((lt_iff one two).mpr less) notLess
  · exact same
  · exact absurd ((lt_iff two one).mpr greater) notLess

theorem beq_eq (one : HasRank first firstRank) (two : HasRank second secondRank) :
    (first == second) = (firstRank == secondRank) := by
  rw [Bool.eq_iff_iff, beq_iff two, beq_iff_eq]
  exact ⟨fun other => unique one other, fun same => same ▸ one⟩

theorem larger (one : HasRank first firstRank) (two : HasRank second secondRank) :
    HasRank (Scalar.larger first second) (Scalar.larger firstRank secondRank) := by
  simp only [Scalar.larger, lt_iff one two]
  split_ifs
  · exact two
  · exact one

theorem smaller (one : HasRank first firstRank) (two : HasRank second secondRank) :
    HasRank (Scalar.smaller first second) (Scalar.smaller firstRank secondRank) := by
  simp only [Scalar.smaller, lt_iff two one]
  split_ifs
  · exact two
  · exact one

end Scalar.Ranked

open Scalar.Ranked

/-- The ranks of both coordinates. -/
def Point.HasRanks (point : Point α) (ranks : Point Rat) : Prop :=
  point.Rel HasRank ranks

/-- The ranks of both ends. -/
def Wire.HasRanks (wire : Wire α) (ranks : Wire Rat) : Prop :=
  wire.Rel HasRank ranks

/-! ## Points -/

namespace Point

variable {point first second : Point α} {ranks firstRanks secondRanks : Point Rat}
  {points : List (Point α)} {allRanks : List (Point Rat)}

theorem same_iff_hasRanks (secondHas : second.HasRanks ranks) :
    first.same second = true ↔ first.HasRanks ranks := by
  rw [same, Bool.and_eq_true, beq_iff secondHas.x, beq_iff secondHas.y]
  exact ⟨fun has => ⟨has.1, has.2⟩, fun has => ⟨has.x, has.y⟩⟩

theorem exists_hasRanks (isNumber : point.same point = true) :
    ∃ ranks, point.HasRanks ranks := by
  rw [same, Bool.and_eq_true] at isNumber
  obtain ⟨x, hasX⟩ := exists_rank isNumber.1
  obtain ⟨y, hasY⟩ := exists_rank isNumber.2
  exact ⟨⟨x, y⟩, hasX, hasY⟩

theorem hasRanks_unique (one : point.HasRanks firstRanks) (two : point.HasRanks secondRanks) :
    firstRanks = secondRanks :=
  eq_of_coordinates (unique one.x two.x) (unique one.y two.y)

section

variable (firstHas : first.HasRanks firstRanks) (secondHas : second.HasRanks secondRanks)

include firstHas secondHas

theorem same_eq : first.same second = firstRanks.same secondRanks := by
  rw [same, same, beq_eq firstHas.x secondHas.x, beq_eq firstHas.y secondHas.y]

theorem before_eq : first.before second = firstRanks.before secondRanks := by
  simp only [before, beq_eq firstHas.x secondHas.x, lt_iff firstHas.x secondHas.x,
    lt_iff firstHas.y secondHas.y]

end

theorem insertOrdered_hasRanks (has : List.Forall₂ HasRanks points allRanks)
    (inserted : point.HasRanks ranks) :
    List.Forall₂ HasRanks (insertOrdered point points) (insertOrdered ranks allRanks) := by
  induction has with
  | nil => exact .cons inserted .nil
  | cons first rest ih =>
      simp only [insertOrdered, same_eq inserted first, before_eq inserted first]
      split_ifs
      · exact .cons first rest
      · exact .cons inserted (.cons first rest)
      · exact .cons first ih

theorem ordered_hasRanks (has : List.Forall₂ HasRanks points allRanks) :
    List.Forall₂ HasRanks (ordered points) (ordered allRanks) := by
  refine List.rel_foldl (fun _ _ sorted _ _ point => ?_) .nil has
  exact insertOrdered_hasRanks sorted point

end Point

/-! ## Lists -/

section

variable {β γ : Type} {related : β → γ → Prop} {firsts : List β} {seconds : List γ}
  (has : List.Forall₂ related firsts seconds)

include has

theorem any_eq {first : β → Bool} {second : γ → Bool}
    (same : ∀ one other, related one other → first one = second other) :
    firsts.any first = seconds.any second := by
  induction has with
  | nil => rfl
  | cons head _ ih => rw [List.any_cons, List.any_cons, same _ _ head, ih]

theorem exists_iff {first : β → Bool} {second : γ → Bool}
    (same : ∀ one other, related one other → first one = second other) :
    (∃ one ∈ firsts, first one = true) ↔ ∃ other ∈ seconds, second other = true := by
  simpa only [List.any_eq_true] using Bool.eq_iff_iff.mp (any_eq has same)

theorem countP_eq {first : β → Bool} {second : γ → Bool}
    (same : ∀ one other, related one other → first one = second other) :
    firsts.countP first = seconds.countP second := by
  induction has with
  | nil => rfl
  | cons head _ ih => rw [List.countP_cons, List.countP_cons, same _ _ head, ih]

theorem exists_of_mem {first : β} (isMember : first ∈ firsts) :
    ∃ second ∈ seconds, related first second := by
  induction has with
  | nil => cases isMember
  | cons head _ ih =>
      rcases List.mem_cons.mp isMember with rfl | later
      · exact ⟨_, List.mem_cons_self, head⟩
      · obtain ⟨second, isSecond, both⟩ := ih later
        exact ⟨second, List.mem_cons_of_mem _ isSecond, both⟩

theorem pairwise_of_related {first : β → β → Prop} {second : γ → γ → Prop}
    (same : ∀ one other, related one other → ∀ one' other', related one' other' →
      second other other' → first one one') (pairwise : seconds.Pairwise second) :
    firsts.Pairwise first := by
  induction has with
  | nil => exact .nil
  | cons head tail ih =>
      obtain ⟨headPairs, tailPairs⟩ := List.pairwise_cons.mp pairwise
      refine List.pairwise_cons.mpr ⟨fun one isOne => ?_, ih tailPairs⟩
      obtain ⟨other, isOther, both⟩ := exists_of_mem tail isOne
      exact same _ _ head _ _ both (headPairs other isOther)

/-- Lists that are related to one list are related to each other. -/
theorem related_of_common {δ : Type} {others : List δ} {second : δ → γ → Prop}
    {both : β → δ → Prop} (hasOthers : List.Forall₂ second others seconds)
    (meet : ∀ one other common, related one common → second other common → both one other) :
    List.Forall₂ both firsts others := by
  induction has generalizing others with
  | nil =>
      cases hasOthers
      exact .nil
  | cons head _ ih =>
      cases hasOthers with
      | cons otherHead otherTail => exact .cons (meet _ _ _ head otherHead) (ih otherTail)

theorem filter_related {first : β → Bool} {second : γ → Bool}
    (same : ∀ one other, related one other → first one = second other) :
    List.Forall₂ related (firsts.filter first) (seconds.filter second) :=
  List.rel_filter (fun one other both => Bool.eq_iff_iff.mp (same one other both)) has

theorem merge_related {le : β → β → Bool} {le' : γ → γ → Bool}
    (same : ∀ one other, related one other → ∀ one' other', related one' other' →
      le one one' = le' other other') {others : List β} {otherSeconds : List γ}
    (hasOthers : List.Forall₂ related others otherSeconds) :
    List.Forall₂ related (firsts.merge others le) (seconds.merge otherSeconds le') := by
  induction has generalizing others otherSeconds with
  | nil => simpa using hasOthers
  | @cons first second rest restSeconds head tail ih =>
      induction hasOthers with
      | nil => simpa using List.Forall₂.cons head tail
      | cons otherHead otherTail ihOthers =>
          rw [List.cons_merge_cons, List.cons_merge_cons, same _ _ head _ _ otherHead]
          split
          · exact .cons head (ih (.cons otherHead otherTail))
          · exact .cons otherHead ihOthers

end

theorem exists_allRelated {β γ : Type} {related : β → γ → Prop} {firsts : List β}
    (each : ∀ first ∈ firsts, ∃ second, related first second) :
    ∃ seconds, List.Forall₂ related firsts seconds := by
  induction firsts with
  | nil => exact ⟨[], .nil⟩
  | cons first rest ih =>
      obtain ⟨second, both⟩ := each first List.mem_cons_self
      obtain ⟨seconds, others⟩ := ih fun later isLater =>
        each later (List.mem_cons_of_mem first isLater)
      exact ⟨second :: seconds, .cons both others⟩

/-! ## Wires and edges -/

namespace Network

variable {point : Point α} {ranks : Point Rat} {wire : Wire α} {wireRanks : Wire Rat}
  {points : List (Point α)} {allRanks : List (Point Rat)}

theorem between_eq {value low high : α} {rank lowRank highRank : Rat} (has : HasRank value rank)
    (lowHas : HasRank low lowRank) (highHas : HasRank high highRank) :
    between value low high = between rank lowRank highRank := by
  simp only [between, lt_iff (smaller lowHas highHas) has, lt_iff has (larger lowHas highHas)]

theorem inside_eq (has : point.HasRanks ranks) (wireHas : wire.HasRanks wireRanks) :
    inside point wire = inside ranks wireRanks := by
  simp only [inside, Wire.isVertical, Wire.isHorizontal,
    beq_eq wireHas.start.x wireHas.finish.x, beq_eq wireHas.start.y wireHas.finish.y,
    beq_eq wireHas.finish.x has.x, beq_eq wireHas.finish.y has.y,
    between_eq has.y wireHas.start.y wireHas.finish.y,
    between_eq has.x wireHas.start.x wireHas.finish.x]
  rfl

theorem stops_hasRanks (has : List.Forall₂ Point.HasRanks points allRanks)
    (wireHas : wire.HasRanks wireRanks) :
    List.Forall₂ Point.HasRanks (stops points wire) (stops allRanks wireRanks) := by
  apply Point.ordered_hasRanks
  refine .cons wireHas.start (.cons wireHas.finish ?_)
  exact filter_related has fun _ _ pointHas => inside_eq pointHas wireHas

/-- The ranks of both ends of an edge. -/
structure EdgeRanks (edge : Point α × Point α) (ranks : Point Rat × Point Rat) : Prop where
  first : edge.1.HasRanks ranks.1
  second : edge.2.HasRanks ranks.2

theorem neighbours_hasRanks (has : List.Forall₂ Point.HasRanks points allRanks) :
    List.Forall₂ EdgeRanks (neighbours points) (neighbours allRanks) := by
  induction has with
  | nil => exact .nil
  | cons first rest ih =>
      cases rest with
      | nil => exact .nil
      | cons second rest => exact .cons ⟨first, second⟩ ih

theorem insertEdge_hasRanks {edges : List (Point α × Point α)}
    {edgesRanks : List (Point Rat × Point Rat)} {edge : Point α × Point α}
    {edgeRanks : Point Rat × Point Rat} (has : List.Forall₂ EdgeRanks edges edgesRanks)
    (edgeHas : EdgeRanks edge edgeRanks) :
    List.Forall₂ EdgeRanks (insertEdge edges edge) (insertEdge edgesRanks edgeRanks) := by
  have present : edges.any (sameEdge edge) = edgesRanks.any (sameEdge edgeRanks) :=
    any_eq has fun _ _ other => by
      rw [sameEdge, sameEdge, Point.same_eq edgeHas.first other.first,
        Point.same_eq edgeHas.second other.second]
  rw [insertEdge, insertEdge, present]
  split
  · exact has
  · exact .cons edgeHas has

/-- The ranks of all points of a network. -/
structure HasRanks (network : Network α) (ranks : Network Rat) : Prop where
  ports : List.Forall₂ Point.HasRanks network.ports ranks.ports
  vertices : List.Forall₂ Point.HasRanks network.vertices ranks.vertices
  edges : List.Forall₂ EdgeRanks network.edges ranks.edges

theorem ofWires_hasRanks {ports : List (Point α)} {portsRanks : List (Point Rat)}
    {wires : List (Wire α)} {wiresRanks : List (Wire Rat)}
    (portsHave : List.Forall₂ Point.HasRanks ports portsRanks)
    (wiresHave : List.Forall₂ Wire.HasRanks wires wiresRanks) :
    (ofWires ports wires).HasRanks (ofWires portsRanks wiresRanks) := by
  have ends := List.rel_flatMap wiresHave fun _ _ wireHas =>
    List.Forall₂.cons wireHas.start (.cons wireHas.finish .nil)
  have vertices := Point.ordered_hasRanks (List.rel_append portsHave ends)
  have pairs := List.rel_flatMap wiresHave fun _ _ wireHas =>
    neighbours_hasRanks (stops_hasRanks vertices wireHas)
  refine ⟨portsHave, vertices, List.rel_foldl (fun _ _ edges _ _ edge => ?_) .nil pairs⟩
  exact insertEdge_hasRanks edges edge

/-! ## Classes -/

section

variable {classes : List (List (Point α))} {classesRanks : List (List (Point Rat))}

theorem mergeOrdered_hasRanks {others : List (Point α)} {othersRanks : List (Point Rat)}
    (has : List.Forall₂ Point.HasRanks points allRanks)
    (othersHave : List.Forall₂ Point.HasRanks others othersRanks) :
    List.Forall₂ Point.HasRanks (mergeOrdered points others)
      (mergeOrdered allRanks othersRanks) :=
  merge_related has (fun _ _ one _ _ other => by rw [Point.before_eq other one]) othersHave

theorem insertClass_hasRanks (has : List.Forall₂ Point.HasRanks points allRanks)
    (classesHave : List.Forall₂ (List.Forall₂ Point.HasRanks) classes classesRanks) :
    List.Forall₂ (List.Forall₂ Point.HasRanks) (insertClass points classes)
      (insertClass allRanks classesRanks) := by
  induction classesHave with
  | nil => exact .cons has .nil
  | cons first rest ih =>
      cases has with
      | nil => exact .cons .nil (.cons first rest)
      | cons least later =>
          cases first with
          | nil => exact .cons (.cons least later) (.cons .nil rest)
          | cons other others =>
              simp only [insertClass, List.head?_cons, Point.before_eq other least]
              split_ifs
              · exact .cons (.cons other others) ih
              · exact .cons (.cons least later) (.cons (.cons other others) rest)

theorem joinClasses_hasRanks {edge : Point α × Point α} {edgeRanks : Point Rat × Point Rat}
    (classesHave : List.Forall₂ (List.Forall₂ Point.HasRanks) classes classesRanks)
    (edgeHas : EdgeRanks edge edgeRanks) :
    List.Forall₂ (List.Forall₂ Point.HasRanks) (joinClasses classes edge)
      (joinClasses classesRanks edgeRanks) := by
  have touched : ∀ (points : List (Point α)) (ranks : List (Point Rat)),
      List.Forall₂ Point.HasRanks points ranks →
      (points.any edge.1.same || points.any edge.2.same) =
        (ranks.any edgeRanks.1.same || ranks.any edgeRanks.2.same) := fun _ _ has => by
    rw [any_eq has fun _ _ pointHas => Point.same_eq edgeHas.first pointHas,
      any_eq has fun _ _ pointHas => Point.same_eq edgeHas.second pointHas]
  rw [joinClasses, joinClasses, List.partition_eq_filter_filter, List.partition_eq_filter_filter]
  apply insertClass_hasRanks
  · refine List.rel_foldl (fun _ _ merged _ _ points => ?_) .nil
      (filter_related classesHave touched)
    exact mergeOrdered_hasRanks merged points
  · exact filter_related classesHave fun _ _ has => congrArg not (touched _ _ has)

theorem HasRanks.electricalNodes {network : Network α} {ranks : Network Rat}
    (has : network.HasRanks ranks) :
    List.Forall₂ (List.Forall₂ Point.HasRanks) network.electricalNodes
      ranks.electricalNodes := by
  refine List.rel_foldl (fun _ _ classes _ _ edge => ?_) ?_ has.edges
  · exact joinClasses_hasRanks classes edge
  · exact List.rel_map (fun _ _ vertex => .cons vertex .nil) has.vertices

end

end Network

end Schematic
