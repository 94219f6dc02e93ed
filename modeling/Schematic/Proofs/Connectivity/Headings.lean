import Schematic.Proofs.Connectivity.Touching

/-!
# Headings

A horizontal or vertical wire leaves a point to the left, to the right, upwards
or downwards.  All wires that leave a point in one direction have the same next
vertex on them, however they overlap, and so a vertex has one neighbour for each
direction in which some wire leaves it.
-/

namespace Schematic

/-- The directions in which wires run. -/
inductive Heading where
  | left
  | right
  | up
  | down
deriving DecidableEq

namespace Heading

def all : List Heading :=
  [left, right, up, down]

theorem mem_all (heading : Heading) : heading ∈ all := by
  cases heading <;> decide

end Heading

section

variable {α : Type} [Scalar α]

/-- Whether a point is straight ahead of another one in a direction. -/
def Heading.leads (heading : Heading) (start finish : Point α) : Bool :=
  match heading with
  | left => finish.x < start.x && finish.y == start.y
  | right => start.x < finish.x && finish.y == start.y
  | up => finish.y < start.y && finish.x == start.x
  | down => start.y < finish.y && finish.x == start.x

/-- Whether a point is on a straight wire that runs on from there in a direction. -/
def Wire.leaves (wire : Wire α) (point : Point α) (heading : Heading) : Bool :=
  wire.carries point && (heading.leads point wire.start || heading.leads point wire.finish)

namespace Network

/-- The directions in which wires leave a point. -/
def headings (wires : List (Wire α)) (point : Point α) : List Heading :=
  Heading.all.filter fun heading => wires.any fun wire => wire.leaves point heading

/-- How many directions and ports there are at a point. -/
def meetings (ports : List (Point α)) (wires : List (Wire α)) (point : Point α) : Nat :=
  (headings wires point).length + ports.countP point.same

end Network

end

/-! ## Directions of points -/

namespace Heading

variable {heading other : Heading} {point start middle finish : Point Rat}

/-- The direction of a point, sideways if there is a choice. -/
def toward (start finish : Point Rat) : Heading :=
  if finish.x < start.x then left
  else if start.x < finish.x then right
  else if finish.y < start.y then up
  else down

/-- In a direction points are passed in this order. -/
def Precedes (heading : Heading) (first second : Point Rat) : Prop :=
  match heading with
  | left | up => second.Before first
  | right | down => first.Before second

theorem toward_of_leads (leads : heading.leads start finish = true) :
    toward start finish = heading := by
  cases heading <;> grind [Heading.leads, toward]

theorem precedes_of_leads (leads : heading.leads start finish = true) :
    heading.Precedes start finish := by
  cases heading <;> grind [Heading.leads, Precedes, Point.Before, Point.before_iff]

theorem ne_of_leads (leads : heading.leads start finish = true) : start ≠ finish := by
  rintro rfl
  cases heading <;> grind [Heading.leads]

/-- The edge from a point in a direction to another one, the earlier point first. -/
def pair (heading : Heading) (first second : Point Rat) : Point Rat × Point Rat :=
  match heading with
  | left | up => (second, first)
  | right | down => (first, second)

theorem pair_of_before (leads : heading.leads start finish = true)
    (isBefore : start.Before finish) : heading.pair start finish = (start, finish) := by
  have precedes := precedes_of_leads leads
  cases heading with
  | left | up => exact absurd isBefore (Point.Before.not_before precedes)
  | right | down => rfl

theorem pair_of_behind (leads : heading.leads start finish = true)
    (isBehind : finish.Before start) : heading.pair start finish = (finish, start) := by
  have precedes := precedes_of_leads leads
  cases heading with
  | left | up => rfl
  | right | down => exact absurd isBehind (Point.Before.not_before precedes)

/-- Of two points in the same direction one is ahead of the other. -/
theorem leads_total (toMiddle : heading.leads start middle = true)
    (toFinish : heading.leads start finish = true) :
    middle = finish ∨ heading.leads middle finish = true ∨ heading.leads finish middle = true := by
  have apart : middle.x = finish.x → middle.y = finish.y → middle = finish :=
    Point.eq_of_coordinates
  cases heading <;> grind [Heading.leads]

end Heading

/-! ## Straight wires -/

namespace Wire

variable {wire : Wire Rat} {heading : Heading} {start middle finish first second : Point Rat}

theorem carries_iff_bounds : wire.carries start = true ↔
    (min wire.start.x wire.finish.x ≤ start.x ∧ start.x ≤ max wire.start.x wire.finish.x) ∧
      min wire.start.y wire.finish.y ≤ start.y ∧ start.y ≤ max wire.start.y wire.finish.y := by
  simp only [carries, Scalar.smaller_eq, Scalar.larger_eq, Bool.and_eq_true, decide_eq_true_eq,
    and_assoc]

/-- A wire has on it what is between two points on it. -/
theorem carries_between (onStart : wire.carries start = true)
    (onFinish : wire.carries finish = true) (toMiddle : heading.leads start middle = true)
    (toFinish : heading.leads middle finish = true) : wire.carries middle = true := by
  rw [carries_iff_bounds] at *
  cases heading <;> grind [Heading.leads]

section

variable (straight : wire.IsStraight)

include straight

/-- All points on a straight wire are at one height or straight above each other. -/
theorem level_or_upright (onFirst : wire.carries first = true)
    (onSecond : wire.carries second = true) :
    first.y = second.y ∨ first.x = second.x := by
  simp only [IsStraight, isHorizontal, isVertical, beq_iff_eq] at straight
  rw [carries_iff_bounds] at onFirst onSecond
  grind

theorem leads_toward (onFirst : wire.carries first = true) (onSecond : wire.carries second = true)
    (different : first ≠ second) : (Heading.toward first second).leads first second = true := by
  have aligned := level_or_upright straight onFirst onSecond
  have apart : first.x = second.x → first.y ≠ second.y :=
    fun sameX sameY => different (Point.eq_of_coordinates sameX sameY)
  grind [Heading.leads, Heading.toward]

/-- A wire leaves a point on it towards any other point on it. -/
theorem leaves_of_carries (onStart : wire.carries start = true)
    (onFinish : wire.carries finish = true) (leads : heading.leads start finish = true) :
    wire.leaves start heading = true := by
  rw [leaves, onStart, Bool.true_and, Bool.or_eq_true]
  simp only [IsStraight, isHorizontal, isVertical, beq_iff_eq] at straight
  rw [carries_iff_bounds] at onStart onFinish
  cases heading <;> grind [Heading.leads]

/-- On a wire that runs in a direction the order of points is the one in this direction. -/
theorem leads_iff_precedes (onStart : wire.carries start = true)
    (onFinish : wire.carries finish = true) (leads : heading.leads start finish = true)
    (onFirst : wire.carries first = true) (onSecond : wire.carries second = true) :
    heading.leads first second = true ↔ heading.Precedes first second := by
  refine ⟨Heading.precedes_of_leads, fun precedes => ?_⟩
  simp only [IsStraight, isHorizontal, isVertical, beq_iff_eq] at straight
  rw [carries_iff_bounds] at onStart onFinish onFirst onSecond
  cases heading <;> grind [Heading.leads, Heading.Precedes, Point.Before, Point.before_iff]

end

end Wire

/-! ## Neighbours of a vertex -/

namespace Network

variable {heading : Heading}

section

variable {points : List (Point Rat)} (ascends : Point.Ascending points) {first second : Point Rat}

include ascends

theorem pair_mem_neighbours_iff : heading.pair first second ∈ neighbours points ↔
    first ∈ points ∧ second ∈ points ∧ heading.Precedes first second ∧
      ∀ point ∈ points, ¬(heading.Precedes first point ∧ heading.Precedes point second) := by
  cases heading with
  | left | up =>
      refine (mem_neighbours_iff ascends).trans ?_
      rw [and_left_comm]
      simp only [and_comm, Heading.Precedes]
  | right | down => exact mem_neighbours_iff ascends

/-- A member with another one in some direction has a next one in this direction. -/
theorem exists_pair_mem_neighbours (isFirst : first ∈ points) (isSecond : second ∈ points)
    (precedes : heading.Precedes first second) :
    ∃ next, heading.pair first next ∈ neighbours points := by
  cases heading with
  | left | up => exact exists_previous ascends isSecond isFirst precedes
  | right | down => exact exists_next ascends isFirst isSecond precedes

end

variable {ports : List (Point Rat)} {wires : List (Wire Rat)} {vertex first second : Point Rat}
  {edge : Point Rat × Point Rat}

theorem mem_headings : heading ∈ headings wires vertex ↔
    ∃ wire ∈ wires, wire.leaves vertex heading = true := by
  simp [headings, Heading.mem_all]

theorem nodup_headings : (headings wires vertex).Nodup :=
  List.Nodup.filter _ (by decide)

theorem nodup_edges : (ofWires ports wires).edges.Nodup := by
  have inserted : ∀ edges start : List (Point Rat × Point Rat), start.Nodup →
      (edges.foldl insertEdge start).Nodup := by
    intro edges
    induction edges with
    | nil => exact fun _ nodup => nodup
    | cons edge rest ih =>
        intro start nodup
        apply ih
        rw [insertEdge]
        split
        · exact nodup
        · next absent =>
          refine List.nodup_cons.mpr ⟨fun present => absent ?_, nodup⟩
          exact List.any_eq_true.mpr ⟨edge, present, sameEdge_iff.mpr rfl⟩
  exact inserted _ [] List.nodup_nil

section

variable (straight : ∀ wire ∈ wires, wire.IsStraight)

include straight

/-- The next vertex in a direction is not further away than another one. -/
theorem not_leads_of_pairs (leads : heading.leads vertex first = true)
    (isFirst : heading.pair vertex first ∈ (ofWires ports wires).edges)
    (isSecond : heading.pair vertex second ∈ (ofWires ports wires).edges) :
    ¬heading.leads first second = true := by
  intro further
  obtain ⟨wire, isWire, firstPair⟩ := mem_edges.mp isFirst
  obtain ⟨other, isOther, secondPair⟩ := mem_edges.mp isSecond
  obtain ⟨-, stopFirst, -, -⟩ := (pair_mem_neighbours_iff (Point.ascending_ordered _)).mp firstPair
  obtain ⟨stopVertex, stopSecond, -, apart⟩ :=
    (pair_mem_neighbours_iff (Point.ascending_ordered _)).mp secondPair
  have atFirst := ((mem_stops_iff isWire (straight wire isWire)).mp stopFirst).1
  have onVertex := ((mem_stops_iff isOther (straight other isOther)).mp stopVertex).2
  have onSecond := ((mem_stops_iff isOther (straight other isOther)).mp stopSecond).2
  -- The nearer point is on the wire of the other edge too, and so it is a stop there.
  have onFirst := Wire.carries_between onVertex onSecond leads further
  exact apart first ((mem_stops_iff isOther (straight other isOther)).mpr ⟨atFirst, onFirst⟩)
    ⟨Heading.precedes_of_leads leads, Heading.precedes_of_leads further⟩

/-- A vertex has one neighbour at most in each direction. -/
theorem next_unique (toFirst : heading.leads vertex first = true)
    (toSecond : heading.leads vertex second = true)
    (isFirst : heading.pair vertex first ∈ (ofWires ports wires).edges)
    (isSecond : heading.pair vertex second ∈ (ofWires ports wires).edges) : first = second := by
  rcases Heading.leads_total toFirst toSecond with same | further | nearer
  · exact same
  · exact absurd further (not_leads_of_pairs straight toFirst isFirst isSecond)
  · exact absurd nearer (not_leads_of_pairs straight toSecond isSecond isFirst)

/-- A vertex has a neighbour in each direction in which a wire leaves it. -/
theorem exists_next_of_mem_headings (isVertex : endsAt ports wires vertex = true)
    (isHeading : heading ∈ headings wires vertex) :
    ∃ next, heading.leads vertex next = true ∧
      heading.pair vertex next ∈ (ofWires ports wires).edges := by
  obtain ⟨wire, isWire, leaves⟩ := mem_headings.mp isHeading
  simp only [Wire.leaves, Bool.and_eq_true, Bool.or_eq_true] at leaves
  obtain ⟨onVertex, ahead⟩ := leaves
  obtain ⟨stop, isEnd, leads⟩ : ∃ stop ∈ wire.ends, heading.leads vertex stop = true := by
    simpa [Wire.ends] using ahead
  have stopVertex : vertex ∈ stops (ofWires ports wires).vertices wire :=
    (mem_stops_iff isWire (straight wire isWire)).mpr ⟨isVertex, onVertex⟩
  obtain ⟨next, isPair⟩ := exists_pair_mem_neighbours (Point.ascending_ordered _) stopVertex
    (mem_stops.mpr (.inl isEnd)) (Heading.precedes_of_leads leads)
  obtain ⟨-, stopNext, precedes, -⟩ :=
    (pair_mem_neighbours_iff (Point.ascending_ordered _)).mp isPair
  have onStop := Wire.carries_iff.mpr (Wire.covers_end isEnd)
  have onNext := Wire.carries_iff.mpr (covers_of_mem_stops stopNext)
  refine ⟨next, ?_, mem_edges.mpr ⟨wire, isWire, isPair⟩⟩
  exact (Wire.leads_iff_precedes (straight wire isWire) onVertex onStop leads onVertex onNext).mpr
    precedes

/-- Each edge at a vertex leads to a neighbour in one of the directions there. -/
theorem exists_pair_of_edge (isEdge : edge ∈ (ofWires ports wires).edges)
    (isEnd : vertex = edge.1 ∨ vertex = edge.2) :
    ∃ heading ∈ headings wires vertex, ∃ next, heading.leads vertex next = true ∧
      edge = heading.pair vertex next := by
  obtain ⟨wire, isWire, isPair⟩ := mem_edges.mp isEdge
  obtain ⟨stopFirst, stopSecond, isBefore, -⟩ :=
    (mem_neighbours_iff (Point.ascending_ordered _)).mp isPair
  have onFirst := Wire.carries_iff.mpr (covers_of_mem_stops stopFirst)
  have onSecond := Wire.carries_iff.mpr (covers_of_mem_stops stopSecond)
  have isStraight := straight wire isWire
  have different := ne_of_irrefl isBefore
  rcases isEnd with rfl | rfl
  · have leads := Wire.leads_toward isStraight onFirst onSecond different
    refine ⟨_, mem_headings.mpr ⟨wire, isWire, ?_⟩, edge.2, leads, ?_⟩
    · exact Wire.leaves_of_carries isStraight onFirst onSecond leads
    · rw [Heading.pair_of_before leads isBefore]
  · have leads := Wire.leads_toward isStraight onSecond onFirst different.symm
    refine ⟨_, mem_headings.mpr ⟨wire, isWire, ?_⟩, edge.1, leads, ?_⟩
    · exact Wire.leaves_of_carries isStraight onSecond onFirst leads
    · rw [Heading.pair_of_behind leads isBefore]

end

/-! ## Counting the neighbours -/

def otherEnd (vertex : Point Rat) (edge : Point Rat × Point Rat) : Point Rat :=
  if vertex = edge.1 then edge.2 else edge.1

theorem otherEnd_pair (different : vertex ≠ first) :
    otherEnd vertex (heading.pair vertex first) = first := by
  cases heading <;> simp [otherEnd, Heading.pair, different]

/-- The direction of an edge from one of its ends. -/
def departure (vertex : Point Rat) (edge : Point Rat × Point Rat) : Heading :=
  Heading.toward vertex (otherEnd vertex edge)

theorem departure_pair (leads : heading.leads vertex first = true) :
    departure vertex (heading.pair vertex first) = heading := by
  rw [departure, otherEnd_pair (Heading.ne_of_leads leads), Heading.toward_of_leads leads]

/-- A vertex has as many neighbours as there are directions in which wires leave it. -/
theorem degree_eq_length_headings (straight : ∀ wire ∈ wires, wire.IsStraight)
    (isVertex : endsAt ports wires vertex = true) :
    (ofWires ports wires).degree vertex = (headings wires vertex).length := by
  let incident (edge : Point Rat × Point Rat) : Bool := vertex.same edge.1 || vertex.same edge.2
  let edges := (ofWires ports wires).edges.filter incident
  have mem_edges_iff : ∀ edge, edge ∈ edges ↔
      edge ∈ (ofWires ports wires).edges ∧ (vertex = edge.1 ∨ vertex = edge.2) := by
    simp [edges, incident, Point.same_iff]
  have departures : (edges.map (departure vertex)).Nodup := by
    apply (nodup_edges.filter incident).map_on
    intro first isFirst second isSecond same
    obtain ⟨isFirst, firstEnd⟩ := (mem_edges_iff first).mp isFirst
    obtain ⟨isSecond, secondEnd⟩ := (mem_edges_iff second).mp isSecond
    obtain ⟨heading, -, next, toFirst, rfl⟩ := exists_pair_of_edge straight isFirst firstEnd
    obtain ⟨other, -, second, toSecond, rfl⟩ := exists_pair_of_edge straight isSecond secondEnd
    rw [departure_pair toFirst, departure_pair toSecond] at same
    subst same
    rw [next_unique straight toFirst toSecond isFirst isSecond]
  have members : ∀ heading, heading ∈ edges.map (departure vertex) ↔
      heading ∈ headings wires vertex := by
    intro heading
    rw [List.mem_map]
    constructor
    · rintro ⟨edge, isEdge, rfl⟩
      obtain ⟨isEdge, isEnd⟩ := (mem_edges_iff edge).mp isEdge
      obtain ⟨heading, isHeading, next, leads, rfl⟩ := exists_pair_of_edge straight isEdge isEnd
      rwa [departure_pair leads]
    · intro isHeading
      obtain ⟨next, leads, isEdge⟩ := exists_next_of_mem_headings straight isVertex isHeading
      refine ⟨heading.pair vertex next, (mem_edges_iff _).mpr ⟨isEdge, ?_⟩, departure_pair leads⟩
      cases heading <;> simp [Heading.pair]
  calc (ofWires ports wires).degree vertex
    _ = edges.length := List.countP_eq_length_filter
    _ = (edges.map (departure vertex)).length := (List.length_map _).symm
    _ = (headings wires vertex).length :=
        ((List.perm_ext_iff_of_nodup departures nodup_headings).mpr members).length_eq

theorem weight_eq_meetings (straight : ∀ wire ∈ wires, wire.IsStraight)
    (isVertex : endsAt ports wires vertex = true) :
    (ofWires ports wires).weight vertex = meetings ports wires vertex := by
  rw [weight, degree_eq_length_headings straight isVertex]
  rfl

theorem mem_junctions (straight : ∀ wire ∈ wires, wire.IsStraight) :
    vertex ∈ (ofWires ports wires).junctions ↔
      endsAt ports wires vertex = true ∧ 3 ≤ meetings ports wires vertex := by
  rw [junctions, List.mem_filter, ← endsAt_iff, decide_eq_true_eq]
  exact and_congr_right fun isVertex => by rw [weight_eq_meetings straight isVertex]

theorem ascending_junctions : Point.Ascending (ofWires ports wires).junctions :=
  List.Pairwise.filter _ (Point.ascending_ordered _)

end Network

end Schematic
