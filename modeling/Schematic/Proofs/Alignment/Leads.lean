import Mathlib.Algebra.Order.Ring.Abs
import Mathlib.Tactic.Ring
import Schematic.Proofs.Alignment.Moved
import Schematic.Proofs.Connectivity.Apart

/-!
# Leads of shifted layouts

The lead from a shunt to its rail is found by heights in the drawing, rounded to
nine places.  A shift can take two heights that round to the same decimal to two
that do not, or the other way round; so the check of a layout depends on where the
layout is, but only in whether shunts have a lead.  It does not if the shift is an
even number of units in the ninth place, and it does not if heights that differ are
apart.
-/

namespace Schematic

/-! ## Rounded heights -/

/-- An even shift keeps the parity on which a half depends. -/
theorem roundHalfEven_add_even (value : Rat) (steps : Int) :
    Number.roundHalfEven (value + ((2 * steps : Int) : Rat)) =
      Number.roundHalfEven value + 2 * steps := by
  have floor : (value + ((2 * steps : Int) : Rat)).floor = value.floor + 2 * steps :=
    Rat.floor_add_intCast
  have rest : value + ((2 * steps : Int) : Rat) - ((value.floor + 2 * steps : Int) : Rat) =
      value - (value.floor : Rat) := by
    push_cast
    ring
  have parity : (value.floor + 2 * steps) % 2 = value.floor % 2 := by omega
  unfold Number.roundHalfEven
  simp only [floor, rest, parity]
  split_ifs <;> ring

/-- Whether two heights round to the same decimal with nine places. -/
def roundAlike (first second : Rat) : Bool :=
  (Scalar.roundTo 9 first : Rat) == Scalar.roundTo 9 second

theorem roundAlike_iff {first second : Rat} :
    roundAlike first second ↔
      Number.roundHalfEven (first * 10 ^ 9) = Number.roundHalfEven (second * 10 ^ 9) := by
  have unfolded : ∀ value : Rat, (Scalar.roundTo 9 value : Rat) =
      (Number.roundHalfEven (value * 10 ^ 9) : Rat) / 10 ^ 9 := by
    intro value
    change (Number.roundHalfEven (value * (Nat.pow 10 9 : Rat)) : Rat) / (Nat.pow 10 9 : Rat) = _
    norm_num
  rw [roundAlike, beq_iff_eq, unfolded, unfolded, div_left_inj' (by norm_num), Int.cast_inj]

/-- A shift by an even number of units in the ninth place keeps apart what rounds
differently, and together what rounds alike. -/
theorem roundAlike_add_even (first second : Rat) (steps : Int) :
    roundAlike (first + 2 * steps / 10 ^ 9) (second + 2 * steps / 10 ^ 9) =
      roundAlike first second := by
  have scaled : ∀ value : Rat,
      (value + 2 * steps / 10 ^ 9) * 10 ^ 9 = value * 10 ^ 9 + ((2 * steps : Int) : Rat) := by
    intro value
    push_cast
    ring
  rw [Bool.eq_iff_iff, roundAlike_iff, roundAlike_iff, scaled, scaled, roundHalfEven_add_even,
    roundHalfEven_add_even, add_left_inj]

/-- Heights that are apart never round alike. -/
theorem roundAlike_eq_false {first second : Rat}
    (apart : Scalar.tolerance < |first - second|) : roundAlike first second = false := by
  have wide : 1 < |first * 10 ^ 9 - second * 10 ^ 9| := by
    have scale : |first * 10 ^ 9 - second * 10 ^ 9| = |first - second| * 10 ^ 9 := by
      rw [← sub_mul, abs_mul, abs_of_pos (by norm_num : (0 : Rat) < 10 ^ 9)]
    rw [Scalar.tolerance_eq, div_lt_iff₀ (by norm_num)] at apart
    rwa [scale]
  rw [← Bool.not_eq_true, roundAlike_iff]
  intro alike
  obtain ⟨firstLow, firstHigh⟩ := Number.roundHalfEven_close (first * 10 ^ 9)
  obtain ⟨secondLow, secondHigh⟩ := Number.roundHalfEven_close (second * 10 ^ 9)
  rw [alike] at firstLow firstHigh
  exact absurd wide (not_lt.mpr (abs_le.mpr ⟨by linarith, by linarith⟩))

namespace Alignment

/-! ## Leads -/

/-- A height of an upright wire is compared with the height of a port or of the rail. -/
def Compares (network : Placement Rat) (port : Point Rat) (height goal : Rat) : Prop :=
  (∃ wire ∈ network.wires, wire.isVertical ∧ ∃ stop ∈ wire.ends, stop.y = height) ∧
    (goal = port.y ∨ network.rail = some goal)

theorem sameMembers_roundTo (first second third fourth : Rat) :
    sameMembers (Scalar.roundTo 9 first, Scalar.roundTo 9 second)
        (Scalar.roundTo 9 third, Scalar.roundTo 9 fourth) =
      ((roundAlike first third || roundAlike first fourth) &&
        (roundAlike second third || roundAlike second fourth) &&
        (roundAlike first third || roundAlike second third) &&
        (roundAlike first fourth || roundAlike second fourth)) := by
  simp only [sameMembers, roundAlike, BEq.comm (a := (Scalar.roundTo 9 third : Rat)),
    BEq.comm (a := (Scalar.roundTo 9 fourth : Rat))]

section

variable {motion : Motion} (upright : motion.turns = false) {network : Placement Rat}
  {port : Point Rat}
include upright

/-- A wire is a lead before and after a shift if heights that are compared round alike
before and after it. -/
theorem isRailLead_moved {rail : Rat} (isRail : network.rail = some rail)
    (alike : ∀ height goal, Compares network port height goal →
      roundAlike (height + motion.shift.y) (goal + motion.shift.y) = roundAlike height goal)
    {wire : Wire Rat} (isWire : wire ∈ network.wires) :
    isRailLead (motion.point port) (rail + motion.shift.y) (motion.wire wire) =
      isRailLead port rail wire := by
  have vertical : (motion.wire wire).isVertical = wire.isVertical := by
    simp only [Wire.isVertical, Motion.wire, motion.point_upright upright, Point.add_x,
      Scalar.beq_add_right]
  cases isVertical : wire.isVertical with
  | false => simp only [isRailLead, vertical, isVertical, Bool.false_and]
  | true =>
      have compared : ∀ stop ∈ wire.ends, ∀ goal, goal = port.y ∨ goal = rail →
          roundAlike (stop.y + motion.shift.y) (goal + motion.shift.y) =
            roundAlike stop.y goal := by
        intro stop isEnd goal isGoal
        refine alike stop.y goal ⟨⟨wire, isWire, isVertical, stop, isEnd, rfl⟩, ?_⟩
        exact isGoal.imp_right fun same => by rw [isRail, same]
      have start := compared wire.start (by simp [Wire.ends])
      have finish := compared wire.finish (by simp [Wire.ends])
      rw [isRailLead, isRailLead, vertical]
      simp only [Motion.wire, motion.point_upright upright, Point.add_x, Point.add_y,
        sameMembers_roundTo, Scalar.same_add_right, start _ (.inl rfl), start _ (.inr rfl),
        finish _ (.inl rfl), finish _ (.inr rfl)]

theorem reachesRail_moved
    (alike : ∀ height goal, Compares network port height goal →
      roundAlike (height + motion.shift.y) (goal + motion.shift.y) = roundAlike height goal) :
    reachesRail (motion.placement network) (motion.point port) = reachesRail network port := by
  have rails : (motion.placement network).rail = network.rail.map (· + motion.shift.y) := rfl
  have wires : (motion.placement network).wires = network.wires.map motion.wire := rfl
  rw [reachesRail, reachesRail, rails, wires]
  cases isRail : network.rail with
  | none => rfl
  | some rail =>
      dsimp only [Option.map_some]
      rw [motion.point_upright upright, Point.add_y, Scalar.same_add_right, List.any_map,
        ← motion.point_upright upright]
      congr 1
      rw [Bool.eq_iff_iff, List.any_eq_true, List.any_eq_true]
      refine exists_congr fun wire => and_congr_right fun isWire => ?_
      rw [Function.comp_apply, isRailLead_moved upright isRail alike isWire]

end

/-! ## Shifted layouts -/

/-- Somewhere in a layout, a height of an upright wire of a twoport is compared with the
height of the rail or of the lower port of a shunt. -/
def ComparesIn (layout : Layout Rat) (height goal : Rat) : Prop :=
  ∃ node ∈ layout.nodes, ∃ links target, node.placement.circuit = .twoport links ∧
    (.shunt, target) ∈ (links.map Link.kind).zip (node.children.map Layout.placement) ∧
    Compares node.placement target.rightEnd height goal

variable {layout : Layout Rat} {shift : Point Rat}

/-- A layout has the same issues where it is shifted to, if the heights that are compared
round alike before and after the shift. -/
theorem bareIssues_shifted_of_alike (asked : String → Bool)
    (alike : asked FindingKind.shuntOffRail.code = true → ∀ height goal,
      ComparesIn layout height goal →
        roundAlike (height + shift.y) (goal + shift.y) = roundAlike height goal) :
    bareIssues asked (layout.map (Placement.shifted shift)) = bareIssues asked layout := by
  rw [← Motion.placement_shifting]
  refine bareIssues_moved fun node isNode links isTwoport => ⟨rfl, fun isAsked target isShunt => ?_⟩
  rw [Motion.rightEnd_placement]
  exact reachesRail_moved rfl fun height goal compares =>
    alike isAsked height goal ⟨node, isNode, links, target, isTwoport, isShunt, compares⟩

/-- A layout that is shifted has the same issues in the same order, up to messages, except
that other shunts may be off their rail.  These are the same as well if the heights that
are compared for them round alike before and after the shift; so they are for a shift by
an even number of units in the ninth place, and for every shift if the heights are equal or
apart. -/
theorem issues_of_shifted (layout : Layout Rat) :
    (∀ shift, bareIssues (· != FindingKind.shuntOffRail.code)
        (layout.map (Placement.shifted shift)) =
      bareIssues (· != FindingKind.shuntOffRail.code) layout) ∧
    (∀ shift : Point Rat,
      (∀ height goal, ComparesIn layout height goal →
        roundAlike (height + shift.y) (goal + shift.y) = roundAlike height goal) →
      (issues (layout.map (Placement.shifted shift))).map Issue.bare =
        (issues layout).map Issue.bare) ∧
    (∀ (right : Rat) (steps : Int),
      (issues (layout.map (Placement.shifted ⟨right, 2 * steps / 10 ^ 9⟩))).map Issue.bare =
        (issues layout).map Issue.bare) ∧
    ((∀ height goal, ComparesIn layout height goal →
        height = goal ∨ Scalar.tolerance < |height - goal|) →
      ∀ shift, (issues (layout.map (Placement.shifted shift))).map Issue.bare =
        (issues layout).map Issue.bare) := by
  have all : ∀ layout, bareIssues (fun _ => true) layout = (issues layout).map Issue.bare :=
    fun layout => List.filter_true _
  simp only [← all]
  refine ⟨fun shift => ?_, fun shift alike => ?_, fun right steps => ?_, fun clear shift => ?_⟩
  · exact bareIssues_shifted_of_alike _ fun asked => by simp at asked
  · exact bareIssues_shifted_of_alike _ fun _ => alike
  · exact bareIssues_shifted_of_alike _ fun _ height goal _ => roundAlike_add_even height goal steps
  · refine bareIssues_shifted_of_alike _ fun _ height goal compares => ?_
    rcases clear height goal compares with rfl | apart
    · rw [roundAlike, roundAlike, BEq.rfl, BEq.rfl]
    · rw [roundAlike_eq_false apart, roundAlike_eq_false]
      rwa [add_sub_add_right_eq_sub]

/-- The layout of `|R1`, with the lead to the rail from another height. -/
def rungFrom (top : Rat) : Layout Rat :=
  .node
    { circuit := .twoport [⟨.shunt, .element ⟨.resistor, some "1"⟩⟩]
      origin := ⟨0, 0⟩
      width := 80
      height := 140
      leftPort := ⟨0, 0⟩
      rightPort := ⟨80, 0⟩
      wires := [⟨⟨40, 0⟩, ⟨40, 20⟩⟩, ⟨⟨40, top⟩, ⟨40, 140⟩⟩]
      rail := some 140 }
    [.node
      { circuit := .element ⟨.resistor, some "1"⟩
        origin := ⟨25, 20⟩
        width := 30
        height := 100
        leftPort := ⟨15, 0⟩
        rightPort := ⟨15, 100⟩
        rotated := true } []]

theorem comparesIn_rungFrom {top height goal : Rat}
    (compares : ComparesIn (rungFrom top) height goal) :
    height ∈ [0, 20, top, 140] ∧ goal ∈ [(120 : Rat), 140] := by
  obtain ⟨node, isNode, links, target, isTwoport, isShunt, ⟨wire, isWire, _, stop, isEnd, rfl⟩,
    isGoal⟩ := compares
  have nodes : (rungFrom top).nodes = rungFrom top :: (rungFrom top).children := rfl
  rw [nodes, List.mem_cons] at isNode
  rcases isNode with rfl | isChild
  · cases isTwoport
    obtain rfl := (Prod.mk.inj (List.mem_singleton.mp isShunt)).2
    constructor
    · simp only [rungFrom, Layout.placement, List.mem_cons, List.not_mem_nil, or_false] at isWire
      rcases isWire with rfl | rfl <;>
        simp only [Wire.ends, List.mem_cons, List.not_mem_nil, or_false] at isEnd <;>
        rcases isEnd with rfl | rfl <;> simp
    · rcases isGoal with rfl | isRail
      · norm_num [Placement.rightEnd, Layout.placement]
      · cases isRail
        simp
  · obtain rfl := List.mem_singleton.mp isChild
    cases isTwoport

/-- The lead of the computed layout is found wherever the layout is, and a lead that starts
a little lower is found after a small shift. -/
theorem issues_of_shifted_rung :
    (∀ height goal, ComparesIn (rungFrom 120) height goal →
      height = goal ∨ Scalar.tolerance < |height - goal|) ∧
    (∀ shift, (issues ((rungFrom 120).map (Placement.shifted shift))).map Issue.bare =
      (issues (rungFrom 120)).map Issue.bare) ∧
    (issues ((rungFrom (120 + 1 / 2 ^ 34)).map (Placement.shifted ⟨7, 1 / 2 ^ 32⟩))).map
        Issue.bare =
      (issues (rungFrom (120 + 1 / 2 ^ 34))).map Issue.bare := by
  have clear : ∀ height goal, ComparesIn (rungFrom 120) height goal →
      height = goal ∨ Scalar.tolerance < |height - goal| := by
    intro height goal compares
    have each : ∀ height ∈ [0, 20, (120 : Rat), 140], ∀ goal ∈ [(120 : Rat), 140],
        height = goal ∨ Scalar.tolerance < Scalar.abs (height - goal) := by
      decide +kernel
    obtain ⟨isHeight, isGoal⟩ := comparesIn_rungFrom compares
    exact (each height isHeight goal isGoal).imp_right (Scalar.abs_eq _ ▸ ·)
  refine ⟨clear, (issues_of_shifted (rungFrom 120)).2.2.2 clear, ?_⟩
  refine (issues_of_shifted (rungFrom (120 + 1 / 2 ^ 34))).2.1 ⟨7, 1 / 2 ^ 32⟩ ?_
  intro height goal compares
  have each : ∀ height ∈ [0, 20, (120 + 1 / 2 ^ 34 : Rat), 140], ∀ goal ∈ [(120 : Rat), 140],
      roundAlike (height + 1 / 2 ^ 32) (goal + 1 / 2 ^ 32) = roundAlike height goal := by
    decide +kernel
  obtain ⟨isHeight, isGoal⟩ := comparesIn_rungFrom compares
  exact each height isHeight goal isGoal

theorem codes_eq (layout : Layout Rat) :
    (issues layout).map Issue.code = layout.nodes.flatMap fun node =>
      (checkNode node.placement (node.children.map Layout.placement)).map (·.kind.code) := by
  rw [issues, check, Layout.walk_eq_nodes, List.map_flatMap, List.map_flatMap]
  congr 1
  funext node
  rw [List.map_map, List.map_map]
  rfl

/-- A lead that starts some hundredths of a unit in the ninth place below its shunt is lost
when the layout is moved down by less than half of such a unit. -/
theorem shifted_lead_is_lost :
    (issues (rungFrom (120 + 1 / 2 ^ 34))).map Issue.code = [] ∧
    (issues ((rungFrom (120 + 1 / 2 ^ 34)).map (Placement.shifted ⟨0, 1 / 2 ^ 31⟩))).map
      Issue.code = [FindingKind.shuntOffRail.code] := by
  rw [codes_eq, codes_eq]
  constructor <;> decide +kernel

end Alignment

end Schematic
