import Schematic.Nesting
import Schematic.Proofs.Reading.Sound

/-!
# Documents that are nested little

A circuit that is read has as many groups inside of one another as its text opens, or
twice as many, since a sum can have parallel groups without parentheses of their own.
This file bounds the calls that print and size it by the nesting of the text, so that a
document with a hundred groups inside of one another is always printed and sized.
-/

namespace Schematic

open Grammar (Subcircuit SeriesGroup Members ParallelGroup Branches Links Collapsed)

/-! ## Counting calls -/

/-- A way to count the calls for a circuit, and those for an operand of a sum: each group
adds some calls to those for its parts, and so may an operand that is no parallel group. -/
structure Counts (calls operand : Circuit → Nat) (leaf branch sum : Nat) : Prop where
  element : ∀ element, calls (.element element) ≤ leaf
  parallel : ∀ branches bound, (∀ circuit ∈ branches, calls circuit ≤ bound) →
    calls (.parallel branches) ≤ bound + branch
  series : ∀ members bound, (∀ circuit ∈ members, operand circuit ≤ bound) →
    calls (.series members) ≤ bound + sum
  asOperand : ∀ circuit, operand circuit ≤ calls circuit + branch
  parallelOperand : ∀ branches, operand (.parallel branches) ≤ calls (.parallel branches)

section

variable {calls operand : Circuit → Nat} {leaf branch sum : Nat}

theorem Counts.collapsed_series (counts : Counts calls operand leaf branch sum)
    {members : List Circuit} {circuit : Circuit}
    (collapsed : Collapsed .series members circuit) {bound : Nat}
    (each : ∀ part ∈ members, calls part ≤ bound + branch ∧ operand part ≤ bound + branch) :
    calls circuit ≤ bound + (branch + sum) := by
  cases collapsed with
  | single =>
      have inside := (each circuit List.mem_cons_self).1
      omega
  | several =>
      have inside := counts.series members _ fun part isPart => (each part isPart).2
      omega

theorem Counts.collapsed_parallel (counts : Counts calls operand leaf branch sum)
    {branches : List Circuit} {circuit : Circuit}
    (collapsed : Collapsed .parallel branches circuit) {bound : Nat}
    (each : ∀ part ∈ branches, calls part ≤ bound) :
    calls circuit ≤ bound + branch ∧ operand circuit ≤ bound + branch := by
  cases collapsed with
  | single =>
      have inside := each circuit List.mem_cons_self
      have asOperand := counts.asOperand circuit
      omega
  | several =>
      have inside := counts.parallel branches bound each
      exact ⟨inside, Nat.le_trans (counts.parallelOperand branches) inside⟩

mutual

/-- The text of a circuit that opens no more than `left` groups bounds its calls. -/
theorem Counts.subcircuit_le (counts : Counts calls operand leaf branch sum)
    {input rest : List Char} {circuit : Circuit} (level left : Nat) :
    Subcircuit input circuit rest → Grammar.nesting level input ≤ level + left →
    calls circuit ≤ (branch + sum) * left + leaf
  | .element _, _ => Nat.le_add_left_of_le (counts.element _)
  | .group inner, nested => by
      rw [Grammar.nesting_open] at nested
      have opened := Grammar.le_nesting (level + 1) ‹List Char›
      have openable : left ≠ 0 := by omega
      obtain ⟨inside, rfl⟩ := Nat.exists_eq_succ_of_ne_zero openable
      have fewer := counts.seriesGroup_le (level + 1) inside inner (by omega)
      rw [Nat.mul_succ]
      omega

/-- A sum has parallel groups without parentheses of their own. -/
theorem Counts.seriesGroup_le (counts : Counts calls operand leaf branch sum)
    {input rest : List Char} {circuit : Circuit} (level left : Nat) :
    SeriesGroup input circuit rest → Grammar.nesting level input ≤ level + left →
    calls circuit ≤ (branch + sum) * left + leaf + (branch + sum)
  | .of inner collapsed, nested =>
      counts.collapsed_series collapsed (counts.members_le level left inner nested)

theorem Counts.members_le (counts : Counts calls operand leaf branch sum)
    {input rest : List Char} {members : List Circuit} (level left : Nat) :
    Members input members rest → Grammar.nesting level input ≤ level + left →
    ∀ part ∈ members, calls part ≤ (branch + sum) * left + leaf + branch ∧
      operand part ≤ (branch + sum) * left + leaf + branch
  | .last inner, nested =>
      List.forall_mem_singleton.mpr (counts.parallelGroup_le level left inner nested)
  | .more first others, nested => by
      have behindFirst := ParallelGroup.nesting_le level first
      rw [Grammar.nesting_plain (by simp [Grammar.IsPlain])] at behindFirst
      exact List.forall_mem_cons.mpr ⟨counts.parallelGroup_le level left first nested,
        counts.members_le level left others (Nat.le_trans behindFirst nested)⟩

theorem Counts.parallelGroup_le (counts : Counts calls operand leaf branch sum)
    {input rest : List Char} {circuit : Circuit} (level left : Nat) :
    ParallelGroup input circuit rest → Grammar.nesting level input ≤ level + left →
    calls circuit ≤ (branch + sum) * left + leaf + branch ∧
      operand circuit ≤ (branch + sum) * left + leaf + branch
  | .of inner collapsed, nested =>
      counts.collapsed_parallel collapsed (counts.branches_le level left inner nested)

theorem Counts.branches_le (counts : Counts calls operand leaf branch sum)
    {input rest : List Char} {branches : List Circuit} (level left : Nat) :
    Branches input branches rest → Grammar.nesting level input ≤ level + left →
    ∀ part ∈ branches, calls part ≤ (branch + sum) * left + leaf
  | .last inner, nested =>
      List.forall_mem_singleton.mpr (counts.subcircuit_le level left inner nested)
  | .more first others, nested => by
      have behindFirst := Subcircuit.nesting_le level first
      rw [Grammar.nesting_plain (by simp [Grammar.IsPlain]),
        Grammar.nesting_plain (by simp [Grammar.IsPlain])] at behindFirst
      exact List.forall_mem_cons.mpr ⟨counts.subcircuit_le level left first nested,
        counts.branches_le level left others (Nat.le_trans behindFirst nested)⟩

end

theorem Counts.links_le (counts : Counts calls operand leaf branch sum)
    {input rest : List Char} {links : List (Link Circuit)} (derived : Links input links rest)
    {level left : Nat}
    (nested : Grammar.nesting level input ≤ level + left) :
    ∀ link ∈ links, calls link.target ≤ (branch + sum) * left + leaf := by
  induction derived with
  | @last kind _ _ _ inner =>
      rw [Grammar.nesting_plain (Grammar.isPlain_sign kind)] at nested
      exact List.forall_mem_singleton.mpr (counts.subcircuit_le level left inner nested)
  | @more kind _ _ _ _ _ inner others ih =>
      rw [Grammar.nesting_plain (Grammar.isPlain_sign kind)] at nested
      have behindTarget := Subcircuit.nesting_le level inner
      exact List.forall_mem_cons.mpr ⟨counts.subcircuit_le level left inner nested,
        ih (Nat.le_trans behindTarget nested)⟩

end

/-! ## Printing and sizing -/

namespace Circuit

/-- The calls for an operand of a sum. -/
def operandCalls : Circuit → Nat
  | .parallel branches => 3 + branchCalls branches
  | operand => 2 + operand.printingCalls

theorem memberCalls_cons (member : Circuit) (rest : List Circuit) :
    memberCalls (member :: rest) = max member.operandCalls (memberCalls rest) := by
  cases member <;> rfl

theorem branchCalls_le {branches : List Circuit} {bound : Nat}
    (each : ∀ branch ∈ branches, branch.printingCalls ≤ bound) :
    branchCalls branches ≤ bound + 1 := by
  induction branches with
  | nil => exact Nat.zero_le _
  | cons branch rest ih =>
      obtain ⟨first, others⟩ := List.forall_mem_cons.mp each
      have later := ih others
      rw [branchCalls]
      omega

theorem memberCalls_le {members : List Circuit} {bound : Nat}
    (each : ∀ member ∈ members, member.operandCalls ≤ bound) : memberCalls members ≤ bound := by
  induction members with
  | nil => exact Nat.zero_le _
  | cons member rest ih =>
      obtain ⟨first, others⟩ := List.forall_mem_cons.mp each
      rw [memberCalls_cons]
      exact Nat.max_le.mpr ⟨first, ih others⟩

theorem linkCalls_le {links : List (Link Circuit)} {bound : Nat}
    (each : ∀ link ∈ links, link.target.printingCalls ≤ bound) : linkCalls links ≤ bound + 3 := by
  induction links with
  | nil => exact Nat.zero_le _
  | cons link rest ih =>
      obtain ⟨first, others⟩ := List.forall_mem_cons.mp each
      have later := ih others
      rw [linkCalls]
      omega

theorem partCalls_le {parts : List Circuit} {bound : Nat}
    (each : ∀ part ∈ parts, part.sizingCalls ≤ bound) : partCalls parts ≤ bound := by
  induction parts with
  | nil => exact Nat.zero_le _
  | cons part rest ih =>
      obtain ⟨first, others⟩ := List.forall_mem_cons.mp each
      exact Nat.max_le.mpr ⟨first, ih others⟩

theorem targetCalls_le {links : List (Link Circuit)} {bound : Nat}
    (each : ∀ link ∈ links, link.target.sizingCalls ≤ bound) : targetCalls links ≤ bound := by
  induction links with
  | nil => exact Nat.zero_le _
  | cons link rest ih =>
      obtain ⟨first, others⟩ := List.forall_mem_cons.mp each
      exact Nat.max_le.mpr ⟨first, ih others⟩

theorem counts_printingCalls : Counts printingCalls operandCalls 5 4 3 where
  element _ := Nat.le_refl 5
  parallel branches bound each := by
    have inside := branchCalls_le each
    rw [printingCalls]
    omega
  series members bound each := by
    have inside := memberCalls_le each
    rw [printingCalls]
    omega
  asOperand circuit := by
    cases circuit <;> simp only [operandCalls, printingCalls] <;> omega
  parallelOperand _ := Nat.le_refl _

theorem counts_sizingCalls : Counts sizingCalls sizingCalls 4 3 3 where
  element _ := Nat.le_refl 4
  parallel branches bound each := by
    have inside := partCalls_le each
    rw [sizingCalls]
    omega
  series members bound each := by
    have inside := partCalls_le each
    rw [sizingCalls]
    omega
  asOperand circuit := Nat.le_add_right _ _
  parallelOperand _ := Nat.le_refl _

end Circuit

/-- A document with a hundred groups inside of one another can be printed and sized. -/
theorem Reading.isPrintable_and_isSizable {text : String} {circuit : Circuit}
    (parsed : Reading.parse text = .ok circuit)
    (nested : Grammar.nesting 0 text.toList ≤ 100) :
    circuit.isPrintable = true ∧ circuit.isSizable = true := by
  have few : Grammar.nesting 0 text.toList ≤ 0 + 100 := by omega
  suffices printing : 16 + circuit.printingCalls ≤ 1000 ∧ 7 + circuit.sizingCalls ≤ 1000 from
    ⟨decide_eq_true printing.1, decide_eq_true printing.2⟩
  cases (Reading.document_of_parse parsed).1 with
  | circuit derived =>
      have printing := Circuit.counts_printingCalls.subcircuit_le 0 100 derived few
      have sizing := Circuit.counts_sizingCalls.subcircuit_le 0 100 derived few
      omega
  | twoport derived =>
      have printing := Circuit.linkCalls_le (Circuit.counts_printingCalls.links_le derived few)
      have sizing := Circuit.targetCalls_le (Circuit.counts_sizingCalls.links_le derived few)
      rw [Circuit.printingCalls, Circuit.sizingCalls]
      omega

end Schematic
