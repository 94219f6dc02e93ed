import Schematic.Proofs.Connectivity.Ranked
import Schematic.Proofs.Connectivity.Touching
import Schematic.Proofs.Connectivity.Wired

/-!
# Electrical nodes of layouts

The electrical nodes of a layout are the classes of touching points among its
rounded ports and wires, in exact and in double-precision arithmetic alike.  So
they depend on where wires are, and not on their order, their directions or how
often they are there.
-/

namespace Schematic

variable {α : Type} [Scalar α]

namespace Layout

/-- The rounded ports of all elements. -/
def keyPorts (layout : Layout α) : List (Point α) :=
  layout.walk.flatMap fun node => Network.elementPorts node.placement

/-- The rounded wires. -/
def keyWires (layout : Layout α) : List (Wire α) :=
  layout.allWires.map Network.keyWire

/-- The coordinates of all rounded ports and wires are numbers. -/
structure HasNumbers (layout : Layout α) : Prop where
  ports : ∀ port ∈ layout.keyPorts, port.same port = true
  wires : ∀ wire ∈ layout.keyWires,
    wire.start.same wire.start = true ∧ wire.finish.same wire.finish = true

/-- All rounded wires are horizontal or vertical. -/
def IsStraight (layout : Layout α) : Prop :=
  ∀ wire ∈ layout.keyWires, wire.IsStraight

end Layout

/-- Two wires between the same points, in the same or in opposite directions. -/
def Wire.sameEnds (wire other : Wire α) : Bool :=
  wire.start.same other.start && wire.finish.same other.finish ||
    wire.start.same other.finish && wire.finish.same other.start

/-- Every port is at a port of other ones, and every wire has the ends of another one. -/
structure Network.Recur (ports : List (Point α)) (wires : List (Wire α))
    (otherPorts : List (Point α)) (otherWires : List (Wire α)) : Prop where
  ports : ∀ port ∈ ports, otherPorts.any port.same = true
  wires : ∀ wire ∈ wires, ∃ other ∈ otherWires, wire.sameEnds other = true

/-- The rounded ports are at the same points, and the rounded wires between the same
points, whatever their number, their order and the directions of the wires are. -/
structure Layout.Resembles (layout other : Layout α) : Prop where
  recur : Network.Recur layout.keyPorts layout.keyWires other.keyPorts other.keyWires
  otherRecur : Network.Recur other.keyPorts other.keyWires layout.keyPorts layout.keyWires

/-! ## Ranks -/

open Scalar.Ranked

section

variable [Scalar.Ranked α]

namespace Network

variable {ports : List (Point α)} {portsRanks : List (Point Rat)} {wires : List (Wire α)}
  {wiresRanks : List (Wire Rat)} {wire : Wire α} {wireRanks : Wire Rat} {point : Point α}
  {ranks : Point Rat} {points : List (Point α)} {allRanks : List (Point Rat)}

theorem carries_eq (wireHas : wire.HasRanks wireRanks) (has : point.HasRanks ranks) :
    wire.carries point = wireRanks.carries ranks := by
  have startX := wireHas.start.x
  have finishX := wireHas.finish.x
  have startY := wireHas.start.y
  have finishY := wireHas.finish.y
  simp only [Wire.carries, le_iff (smaller startX finishX) has.x,
    le_iff has.x (larger startX finishX), le_iff (smaller startY finishY) has.y,
    le_iff has.y (larger startY finishY)]

theorem isStraight_iff (wireHas : wire.HasRanks wireRanks) :
    wire.IsStraight ↔ wireRanks.IsStraight := by
  rw [Wire.IsStraight, Wire.IsStraight, Wire.isHorizontal, Wire.isVertical,
    beq_eq wireHas.start.y wireHas.finish.y, beq_eq wireHas.start.x wireHas.finish.x]
  rfl

theorem holds_eq (pointsHave : List.Forall₂ Point.HasRanks points allRanks)
    (has : point.HasRanks ranks) : holds points point = holds allRanks ranks :=
  any_eq pointsHave fun _ _ other => Point.same_eq has other

theorem exists_hasRanks_of_any (pointsHave : List.Forall₂ Point.HasRanks points allRanks)
    (isSome : points.any point.same = true) : ∃ ranks, point.HasRanks ranks := by
  obtain ⟨other, isOther, same⟩ := List.any_eq_true.mp isSome
  obtain ⟨ranks, -, otherHas⟩ := exists_of_mem pointsHave isOther
  exact ⟨ranks, (Point.same_iff_hasRanks otherHas).mp same⟩

section

variable (portsHave : List.Forall₂ Point.HasRanks ports portsRanks)
  (wiresHave : List.Forall₂ Wire.HasRanks wires wiresRanks)

include portsHave wiresHave

theorem endsAt_eq (has : point.HasRanks ranks) :
    endsAt ports wires point = endsAt portsRanks wiresRanks ranks := by
  rw [endsAt, endsAt, any_eq portsHave fun _ _ port => Point.same_eq has port]
  congr 1
  exact any_eq wiresHave fun _ _ wireHas => by
    rw [Point.same_eq has wireHas.start, Point.same_eq has wireHas.finish]

theorem exists_hasRanks_of_endsAt (ends : endsAt ports wires point = true) :
    ∃ ranks, point.HasRanks ranks := by
  rw [endsAt, Bool.or_eq_true] at ends
  rcases ends with atPort | atWire
  · exact exists_hasRanks_of_any portsHave atPort
  · obtain ⟨wire, isWire, same⟩ := List.any_eq_true.mp atWire
    obtain ⟨wireRanks, -, wireHas⟩ := exists_of_mem wiresHave isWire
    rw [Bool.or_eq_true, Point.same_iff_hasRanks wireHas.start,
      Point.same_iff_hasRanks wireHas.finish] at same
    rcases same with atStart | atFinish
    · exact ⟨_, atStart⟩
    · exact ⟨_, atFinish⟩

/-- Where something ends among the ranks, something ends at a point. -/
theorem exists_point_of_endsAt (ends : endsAt portsRanks wiresRanks ranks = true) :
    ∃ point : Point α, point.HasRanks ranks := by
  rcases mem_vertices.mp (endsAt_iff.mp ends) with isPort | ⟨wireRanks, isWire, isEnd⟩
  · exact exists_related portsHave isPort
  · obtain ⟨wire, wireHas⟩ := exists_related wiresHave isWire
    simp only [Wire.ends, List.mem_cons, List.not_mem_nil, or_false] at isEnd
    rcases isEnd with rfl | rfl
    · exact ⟨_, wireHas.start⟩
    · exact ⟨_, wireHas.finish⟩

theorem touch_iff {first second : Point α} {firstRanks secondRanks : Point Rat}
    (firstHas : first.HasRanks firstRanks) (secondHas : second.HasRanks secondRanks) :
    Touch ports wires first second ↔ Touch portsRanks wiresRanks firstRanks secondRanks := by
  have shared : (∃ wire ∈ wires, wire.carries first = true ∧ wire.carries second = true) ↔
      ∃ wire ∈ wiresRanks, wire.carries firstRanks = true ∧
        wire.carries secondRanks = true := by
    simp only [← Bool.and_eq_true]
    exact exists_iff wiresHave fun _ _ wireHas =>
      congrArg₂ and (carries_eq wireHas firstHas) (carries_eq wireHas secondHas)
  constructor
  · rintro ⟨atFirst, atSecond, meets⟩
    rw [endsAt_eq portsHave wiresHave firstHas] at atFirst
    rw [endsAt_eq portsHave wiresHave secondHas] at atSecond
    rw [Point.same_eq firstHas secondHas, shared] at meets
    exact ⟨atFirst, atSecond, meets⟩
  · rintro ⟨atFirst, atSecond, meets⟩
    rw [← endsAt_eq portsHave wiresHave firstHas] at atFirst
    rw [← endsAt_eq portsHave wiresHave secondHas] at atSecond
    rw [← Point.same_eq firstHas secondHas, ← shared] at meets
    exact ⟨atFirst, atSecond, meets⟩

theorem touching_iff {first second : Point α} {firstRanks secondRanks : Point Rat}
    (firstHas : first.HasRanks firstRanks) (secondHas : second.HasRanks secondRanks)
    (atFirst : endsAt ports wires first = true) (atSecond : endsAt ports wires second = true) :
    Relation.EqvGen (Touch ports wires) first second ↔
      Relation.EqvGen (Touch portsRanks wiresRanks) firstRanks secondRanks := by
  constructor
  · intro touching
    -- Nothing ends at a point without ranks, so its image does not matter.
    have someRanks : ∀ point : Point α, ∃ ranks : Point Rat, ∀ other, point.HasRanks other →
        ranks = other := by
      intro point
      by_cases hasSome : ∃ ranks, point.HasRanks ranks
      · obtain ⟨ranks, has⟩ := hasSome
        exact ⟨ranks, fun other otherHas => Point.hasRanks_unique has otherHas⟩
      · exact ⟨firstRanks, fun other otherHas => (hasSome ⟨other, otherHas⟩).elim⟩
    choose ranksOf isRanks using someRanks
    rw [← isRanks first firstRanks firstHas, ← isRanks second secondRanks secondHas]
    refine joined_image ranksOf (fun one other touch => ?_) touching
    obtain ⟨oneRanks, oneHas⟩ := exists_hasRanks_of_endsAt portsHave wiresHave touch.atFirst
    obtain ⟨otherRanks, otherHas⟩ := exists_hasRanks_of_endsAt portsHave wiresHave touch.atSecond
    rw [isRanks one oneRanks oneHas, isRanks other otherRanks otherHas]
    exact .rel _ _ ((touch_iff portsHave wiresHave oneHas otherHas).mp touch)
  · intro touching
    have somePoint : ∀ ranks : Point Rat, ∃ point : Point α,
        endsAt portsRanks wiresRanks ranks = true → point.HasRanks ranks := by
      intro ranks
      by_cases ends : endsAt portsRanks wiresRanks ranks = true
      · obtain ⟨point, has⟩ := exists_point_of_endsAt portsHave wiresHave ends
        exact ⟨point, fun _ => has⟩
      · exact ⟨first, fun atRanks => absurd atRanks ends⟩
    choose pointOf hasRanks using somePoint
    have reached : ∀ (point : Point α) (ranks : Point Rat), point.HasRanks ranks →
        endsAt ports wires point = true → Touch ports wires point (pointOf ranks) := by
      intro point ranks has ends
      have ranksEnd := ends
      rw [endsAt_eq portsHave wiresHave has] at ranksEnd
      have imageHas := hasRanks ranks ranksEnd
      exact (touch_iff portsHave wiresHave has imageHas).mpr
        ⟨ranksEnd, ranksEnd, .inl (Point.same_iff.mpr rfl)⟩
    have image := joined_image pointOf (fun one other touch => Relation.EqvGen.rel _ _
      ((touch_iff portsHave wiresHave (hasRanks one touch.atFirst)
        (hasRanks other touch.atSecond)).mpr touch)) touching
    have fromFirst := Relation.EqvGen.rel _ _ (reached first firstRanks firstHas atFirst)
    have fromSecond := Relation.EqvGen.rel _ _ (reached second secondRanks secondHas atSecond)
    exact fromFirst.trans _ _ _ (image.trans _ _ _ (fromSecond.symm _ _))

/-- Points are shared out by touching if their ranks are. -/
theorem touchClasses_of_ranks {classes : List (List (Point α))}
    {classesRanks : List (List (Point Rat))}
    (classesHave : List.Forall₂ (List.Forall₂ Point.HasRanks) classes classesRanks)
    (shares : TouchClasses portsRanks wiresRanks classesRanks) :
    TouchClasses ports wires classes := by
  constructor
  · intro point
    have covers : ∀ ranks : Point Rat, point.HasRanks ranks →
        (endsAt ports wires point = true ↔ ∃ points ∈ classes, holds points point = true) := by
      intro ranks has
      rw [endsAt_eq portsHave wiresHave has, shares.covers]
      exact (exists_iff classesHave fun _ _ pointsHave => holds_eq pointsHave has).symm
    constructor
    · intro ends
      obtain ⟨ranks, has⟩ := exists_hasRanks_of_endsAt portsHave wiresHave ends
      exact (covers ranks has).mp ends
    · rintro ⟨points, isClass, isHeld⟩
      obtain ⟨pointsRanks, -, pointsHave⟩ := exists_of_mem classesHave isClass
      obtain ⟨ranks, has⟩ := exists_hasRanks_of_any pointsHave isHeld
      exact (covers ranks has).mpr ⟨points, isClass, isHeld⟩
  · refine pairwise_of_related classesHave (fun one _ oneHas other _ otherHas apart => ?_)
      shares.disjoint
    intro point isHeld
    obtain ⟨ranks, has⟩ := exists_hasRanks_of_any oneHas isHeld
    rw [holds_eq oneHas has] at isHeld
    rw [holds_eq otherHas has]
    exact apart ranks isHeld
  · rintro points isClass rfl
    obtain ⟨pointsRanks, isRanks, pointsHave⟩ := exists_of_mem classesHave isClass
    cases pointsHave
    exact shares.nonempty [] isRanks rfl
  · intro points isClass
    obtain ⟨pointsRanks, isRanks, pointsHave⟩ := exists_of_mem classesHave isClass
    refine pairwise_of_related pointsHave (fun _ _ one _ _ other isBefore => ?_)
      (shares.ascending pointsRanks isRanks)
    rwa [Point.before_eq one other]
  · refine pairwise_of_related classesHave (fun one _ oneHas other _ otherHas isBefore => ?_)
      shares.ordered
    obtain ⟨least, isLeast, otherLeast, isOther, isBefore⟩ := isBefore
    cases oneHas with
    | nil => cases isLeast
    | cons first _ =>
        cases otherHas with
        | nil => cases isOther
        | cons second _ =>
            cases isLeast
            cases isOther
            exact ⟨_, rfl, _, rfl, by rwa [Point.before_eq first second]⟩
  · intro first second atFirst atSecond
    obtain ⟨firstRanks, firstHas⟩ := exists_hasRanks_of_endsAt portsHave wiresHave atFirst
    obtain ⟨secondRanks, secondHas⟩ := exists_hasRanks_of_endsAt portsHave wiresHave atSecond
    rw [touching_iff portsHave wiresHave firstHas secondHas atFirst atSecond]
    rw [endsAt_eq portsHave wiresHave firstHas] at atFirst
    rw [endsAt_eq portsHave wiresHave secondHas] at atSecond
    rw [← shares.joined firstRanks secondRanks atFirst atSecond]
    simp only [← Bool.and_eq_true]
    exact exists_iff classesHave fun _ _ pointsHave =>
      congrArg₂ and (holds_eq pointsHave firstHas) (holds_eq pointsHave secondHas)

end

/-! ## Ports and wires that recur -/

theorem sameEnds_eq {other : Wire α} {otherRanks : Wire Rat} (wireHas : wire.HasRanks wireRanks)
    (otherHas : other.HasRanks otherRanks) :
    wire.sameEnds other = wireRanks.sameEnds otherRanks := by
  simp only [Wire.sameEnds, Point.same_eq wireHas.start otherHas.start,
    Point.same_eq wireHas.finish otherHas.finish, Point.same_eq wireHas.start otherHas.finish,
    Point.same_eq wireHas.finish otherHas.start]

theorem Recur.recur_ranks {otherPorts : List (Point α)} {otherPortsRanks : List (Point Rat)}
    {otherWires : List (Wire α)} {otherWiresRanks : List (Wire Rat)}
    (recur : Recur ports wires otherPorts otherWires)
    (portsHave : List.Forall₂ Point.HasRanks ports portsRanks)
    (wiresHave : List.Forall₂ Wire.HasRanks wires wiresRanks)
    (otherPortsHave : List.Forall₂ Point.HasRanks otherPorts otherPortsRanks)
    (otherWiresHave : List.Forall₂ Wire.HasRanks otherWires otherWiresRanks) :
    Recur portsRanks wiresRanks otherPortsRanks otherWiresRanks := by
  constructor
  · intro ranks isPort
    obtain ⟨port, isPort, has⟩ := exists_of_mem (List.Forall₂.flip portsHave) isPort
    rw [← any_eq otherPortsHave fun _ _ other => Point.same_eq has other]
    exact recur.ports port isPort
  · intro ranks isWire
    obtain ⟨wire, isWire, wireHas⟩ := exists_of_mem (List.Forall₂.flip wiresHave) isWire
    rw [← exists_iff otherWiresHave fun _ _ other => sameEnds_eq wireHas other]
    exact recur.wires wire isWire

end Network

end

namespace Network

variable {ports otherPorts : List (Point Rat)} {wires otherWires : List (Wire Rat)}
  {first second point : Point Rat}

theorem mem_ends_of_sameEnds {wire other : Wire Rat} (same : wire.sameEnds other = true)
    (point : Point Rat) : point ∈ wire.ends ↔ point ∈ other.ends := by
  simp only [Wire.sameEnds, Bool.or_eq_true, Bool.and_eq_true, Point.same_iff] at same
  simp only [Wire.ends, List.mem_cons, List.not_mem_nil, or_false]
  rcases same with ⟨start, finish⟩ | ⟨start, finish⟩
  · rw [start, finish]
  · rw [start, finish, or_comm]

theorem Recur.endsAt (recur : Recur ports wires otherPorts otherWires)
    (ends : endsAt ports wires point = true) : endsAt otherPorts otherWires point = true := by
  rw [endsAt_iff, mem_vertices] at ends ⊢
  rcases ends with isPort | ⟨wire, isWire, isEnd⟩
  · exact .inl (any_same_iff.mp (recur.ports point isPort))
  · obtain ⟨other, isOther, same⟩ := recur.wires wire isWire
    exact .inr ⟨other, isOther, (mem_ends_of_sameEnds same point).mp isEnd⟩

theorem Recur.touch (recur : Recur ports wires otherPorts otherWires)
    (touch : Touch ports wires first second) : Touch otherPorts otherWires first second := by
  refine ⟨recur.endsAt touch.atFirst, recur.endsAt touch.atSecond, touch.meets.imp_right ?_⟩
  rintro ⟨wire, isWire, onFirst, onSecond⟩
  obtain ⟨other, isOther, same⟩ := recur.wires wire isWire
  have carries : ∀ point : Point Rat, wire.carries point = true → other.carries point = true := by
    intro point carried
    simpa only [Wire.carries_iff, Wire.Covers, mem_ends_of_sameEnds same] using carried
  exact ⟨other, isOther, carries first onFirst, carries second onSecond⟩

/-- Ports and wires that recur in each other have the same classes. -/
theorem TouchClasses.eq_of_recur {classes otherClasses : List (List (Point Rat))}
    (shares : TouchClasses ports wires classes)
    (otherShares : TouchClasses otherPorts otherWires otherClasses)
    (recur : Recur ports wires otherPorts otherWires)
    (otherRecur : Recur otherPorts otherWires ports wires) : classes = otherClasses := by
  apply shares.unique otherShares
  · funext point
    exact Bool.eq_iff_iff.mpr ⟨recur.endsAt, otherRecur.endsAt⟩
  · funext first second
    exact propext ⟨recur.touch, otherRecur.touch⟩

end Network

/-! ## Layouts -/

namespace Network

variable {ports : List (Point α)} {wires : List (Wire α)} {classes : List (List (Point α))}

/-- The class that is found at a point is the one that holds its rounded point. -/
theorem TouchClasses.classOf?_eq_some_iff (shares : TouchClasses ports wires classes)
    {point : Point α} {points : List (Point α)} :
    classOf? classes point = some points ↔
      points ∈ classes ∧ holds points (key point) = true := by
  have held {points : List (Point α)} (found : classOf? classes point = some points) :
      holds points (key point) = true :=
    List.find?_some (p := fun points => holds points (key point)) found
  constructor
  · intro found
    exact ⟨List.mem_of_find?_eq_some found, held found⟩
  · rintro ⟨isClass, isHeld⟩
    have isSome : (classOf? classes point).isSome :=
      List.find?_isSome.mpr ⟨points, isClass, isHeld⟩
    obtain ⟨others, found⟩ := Option.isSome_iff_exists.mp isSome
    have symmetric : Std.Symm fun first second : List (Point α) =>
        ∀ point, holds first point = true → holds second point = false := by
      refine ⟨fun first second apart point inSecond => ?_⟩
      by_contra inFirst
      rw [apart point (Bool.not_eq_false _ ▸ inFirst)] at inSecond
      cases inSecond
    rw [found, Option.some_inj]
    by_contra different
    have apart := List.Pairwise.forall shares.disjoint (List.mem_of_find?_eq_some found) isClass
      different (key point) (held found)
    rw [isHeld] at apart
    cases apart

theorem TouchClasses.classOf?_eq_none_iff (shares : TouchClasses ports wires classes)
    {point : Point α} :
    classOf? classes point = none ↔ endsAt ports wires (key point) = false := by
  rw [Bool.eq_false_iff, ne_eq, shares.covers, classOf?, List.find?_eq_none]
  simp only [not_exists, not_and]
  rfl

end Network

namespace Layout

variable [Scalar.Ranked α] {layout other : Layout α}

theorem HasNumbers.exists_ranks (numbers : layout.HasNumbers) :
    ∃ portsRanks wiresRanks, List.Forall₂ Point.HasRanks layout.keyPorts portsRanks ∧
      List.Forall₂ Wire.HasRanks layout.keyWires wiresRanks := by
  obtain ⟨portsRanks, ports⟩ := exists_allRelated fun port isPort =>
    Point.exists_hasRanks (numbers.ports port isPort)
  have each : ∀ wire ∈ layout.keyWires, ∃ ranks, wire.HasRanks ranks := by
    intro wire isWire
    obtain ⟨startNumber, finishNumber⟩ := numbers.wires wire isWire
    obtain ⟨start, startHas⟩ := Point.exists_hasRanks startNumber
    obtain ⟨finish, finishHas⟩ := Point.exists_hasRanks finishNumber
    exact ⟨⟨start, finish⟩, startHas, finishHas⟩
  obtain ⟨wiresRanks, wires⟩ := exists_allRelated each
  exact ⟨portsRanks, wiresRanks, ports, wires⟩

theorem IsStraight.ranks (straight : layout.IsStraight) {wiresRanks : List (Wire Rat)}
    (wiresHave : List.Forall₂ Wire.HasRanks layout.keyWires wiresRanks) :
    ∀ wire ∈ wiresRanks, wire.IsStraight := by
  intro ranks isWire
  obtain ⟨wire, isWire, has⟩ := exists_of_mem (List.Forall₂.flip wiresHave) isWire
  exact (Network.isStraight_iff has).mp (straight wire isWire)

open Network in
/-- The electrical nodes of a layout with straight wires are the classes of touching
points among its ports and the ends of its wires, and each point has the node that
holds it.  A layout that resembles it has the same nodes. -/
theorem nodes_are_touchClasses (layout : Layout α) (numbers : layout.HasNumbers)
    (straight : layout.IsStraight) :
    let network := Network.ofLayout layout
    TouchClasses layout.keyPorts layout.keyWires network.electricalNodes ∧
    (∀ point points, network.nodeOf? point = some points ↔
      points ∈ network.electricalNodes ∧ holds points (key point) = true) ∧
    (∀ point, network.nodeOf? point = none ↔
      endsAt layout.keyPorts layout.keyWires (key point) = false) ∧
    ∀ other : Layout α, other.HasNumbers → other.IsStraight → layout.Resembles other →
      List.Forall₂ (List.Forall₂ fun point same => point.same same = true)
        network.electricalNodes (Network.ofLayout other).electricalNodes := by
  obtain ⟨portsRanks, wiresRanks, portsHave, wiresHave⟩ := numbers.exists_ranks
  have nodes := (ofWires_hasRanks portsHave wiresHave).electricalNodes
  have exact : TouchClasses portsRanks wiresRanks (ofWires portsRanks wiresRanks).electricalNodes :=
    touchClasses_electricalNodes (straight.ranks wiresHave)
  have shares := touchClasses_of_ranks portsHave wiresHave nodes exact
  refine ⟨shares, fun _ _ => shares.classOf?_eq_some_iff, fun _ => shares.classOf?_eq_none_iff, ?_⟩
  intro other otherNumbers otherStraight resembles
  obtain ⟨otherPortsRanks, otherWiresRanks, otherPortsHave, otherWiresHave⟩ :=
    otherNumbers.exists_ranks
  have otherNodes := (ofWires_hasRanks otherPortsHave otherWiresHave).electricalNodes
  have sameNodes := exact.eq_of_recur
    (touchClasses_electricalNodes (otherStraight.ranks otherWiresHave))
    (resembles.recur.recur_ranks portsHave wiresHave otherPortsHave otherWiresHave)
    (resembles.otherRecur.recur_ranks otherPortsHave otherWiresHave portsHave wiresHave)
  rw [← sameNodes] at otherNodes
  refine related_of_common nodes otherNodes fun _ _ _ points others => ?_
  exact related_of_common points others fun _ _ _ point same =>
    (Point.same_iff_hasRanks same).mpr point

/-- A placed resistor that owns the given wires. -/
def resistorWith (wires : List (Wire Float)) : Layout Float :=
  .node { circuit := .element ⟨.resistor, some "1"⟩, origin := ⟨0, 0⟩, width := 100, height := 30,
          leftPort := ⟨0, 15⟩, rightPort := ⟨100, 15⟩, wires } []

open Network in
theorem nodes_are_touchClasses_reordered :
    let layout := resistorWith [⟨⟨0, 15⟩, ⟨-20, 15⟩⟩, ⟨⟨-20, 0⟩, ⟨-20, 40⟩⟩, ⟨⟨-20, 30⟩, ⟨-20, 10⟩⟩]
    let other := resistorWith [⟨⟨-20, 40⟩, ⟨-20, 0⟩⟩, ⟨⟨-20, 10⟩, ⟨-20, 30⟩⟩, ⟨⟨0, 15⟩, ⟨-20, 15⟩⟩,
      ⟨⟨-20, 15⟩, ⟨0, 15⟩⟩]
    layout.HasNumbers ∧ layout.IsStraight ∧ layout.Resembles other ∧
      TouchClasses layout.keyPorts layout.keyWires (Network.ofLayout layout).electricalNodes ∧
      List.Forall₂ (List.Forall₂ fun point same => point.same same = true)
        (Network.ofLayout layout).electricalNodes (Network.ofLayout other).electricalNodes := by
  intro layout other
  have numbers : layout.HasNumbers := ⟨by decide +kernel, by decide +kernel⟩
  have straight : layout.IsStraight := by
    unfold IsStraight Wire.IsStraight
    decide +kernel
  have otherNumbers : other.HasNumbers := ⟨by decide +kernel, by decide +kernel⟩
  have otherStraight : other.IsStraight := by
    unfold IsStraight Wire.IsStraight
    decide +kernel
  have resembles : layout.Resembles other :=
    ⟨⟨by decide +kernel, by decide +kernel⟩, ⟨by decide +kernel, by decide +kernel⟩⟩
  obtain ⟨shares, -, -, same⟩ := nodes_are_touchClasses layout numbers straight
  exact ⟨numbers, straight, resembles, shares, same other otherNumbers otherStraight resembles⟩

end Layout

end Schematic
