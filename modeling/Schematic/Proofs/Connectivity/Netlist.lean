import Mathlib.Logic.Relation
import Schematic.Alignment.Finding
import Schematic.Proofs.Layout.Walk

/-!
# Netlists of circuits

A circuit says which of its terminals belong together, without any drawing:
members of a series group follow one another, branches of a parallel group
share both ends, the links of a twoport are between the nodes of its signal
line, or between one of these and the rail.  This file holds these ties between
terminals, and the paths that name the parts of circuits and layouts.
-/

namespace Schematic

open Schematic.Alignment (Side)

/-- A place where something can be connected. -/
inductive Terminal where
  /-- An end of the part at a path. -/
  | port (path : List Nat) (side : Side)
  /-- A node of the signal line of a twoport. -/
  | signal (position : Nat)
  /-- The return rail of a twoport. -/
  | rail

namespace Circuit

/-- The members, branches or targets of a circuit. -/
def parts : Circuit → List Circuit
  | .series members => members
  | .parallel branches => branches
  | .twoport links => links.map Link.target
  | _ => []

/-- The part of a circuit at a path. -/
def partAt? (circuit : Circuit) : List Nat → Option Circuit
  | [] => some circuit
  | index :: path => circuit.parts[index]?.bind fun part => part.partAt? path

/-- The node of the signal line where a link starts: every series link before
it leads to the next node. -/
def signalBefore (links : List (Link Circuit)) (index : Nat) : Nat :=
  (links.take index).countP fun link => link.kind == .series

/-- Two terminals of a circuit that are directly connected. -/
inductive Tie : Circuit → Terminal → Terminal → Prop where
  /-- A series group starts where its first member does. -/
  | first {members : List Circuit} : 0 < members.length →
      Tie (.series members) (.port [] .left) (.port [0] .left)
  /-- A member of a series group ends where the next one starts. -/
  | next {members : List Circuit} {index : Nat} : index + 1 < members.length →
      Tie (.series members) (.port [index] .right) (.port [index + 1] .left)
  /-- A series group ends where its last member does. -/
  | last {members : List Circuit} {index : Nat} : index + 1 = members.length →
      Tie (.series members) (.port [index] .right) (.port [] .right)
  /-- The branches of a parallel group share its ends. -/
  | branch {branches : List Circuit} {index : Nat} (side : Side) : index < branches.length →
      Tie (.parallel branches) (.port [] side) (.port [index] side)
  /-- A link starts at the signal line. -/
  | linkStart {links : List (Link Circuit)} {index : Nat} : index < links.length →
      Tie (.twoport links) (.port [index] .left) (.signal (signalBefore links index))
  /-- A series link ends at the next node of the signal line. -/
  | seriesEnd {links : List (Link Circuit)} {index : Nat} {target : Circuit} :
      links[index]? = some ⟨.series, target⟩ →
      Tie (.twoport links) (.port [index] .right) (.signal (signalBefore links index + 1))
  /-- A shunt link ends at the rail. -/
  | shuntEnd {links : List (Link Circuit)} {index : Nat} {target : Circuit} :
      links[index]? = some ⟨.shunt, target⟩ →
      Tie (.twoport links) (.port [index] .right) .rail
  /-- The ties of a part are ties of the whole circuit. -/
  | inside {circuit part : Circuit} {index : Nat} {path otherPath : List Nat}
      {side otherSide : Side} : circuit.parts[index]? = some part →
      Tie part (.port path side) (.port otherPath otherSide) →
      Tie circuit (.port (index :: path) side) (.port (index :: otherPath) otherSide)

/-- Two terminals of a circuit that belong to one electrical node. -/
def SameNode (circuit : Circuit) : Terminal → Terminal → Prop :=
  Relation.EqvGen circuit.Tie

end Circuit

/-! ## Ports of layouts -/

variable {α : Type} [Scalar α]

/-- The port of a placed circuit on one side, in the drawing. -/
def Placement.portAt (placement : Placement α) : Side → Point α
  | .left => placement.leftEnd
  | .right => placement.rightEnd

omit [Scalar α] in
/-- The node of a layout at a path. -/
def Layout.nodeAt? (layout : Layout α) : List Nat → Option (Layout α)
  | [] => some layout
  | index :: path => layout.children[index]?.bind fun child => child.nodeAt? path

omit [Scalar α] in
theorem Layout.mem_nodes_of_nodeAt? {layout node : Layout α} {path : List Nat}
    (found : layout.nodeAt? path = some node) : node ∈ layout.nodes := by
  induction path generalizing layout with
  | nil =>
      cases found
      exact Layout.mem_nodes.mpr (.inl rfl)
  | cons index path ih =>
      obtain ⟨child, isChild, found⟩ := Option.bind_eq_some_iff.mp found
      exact Layout.mem_nodes.mpr (.inr ⟨child, List.mem_of_getElem? isChild, ih found⟩)

end Schematic
