import Schematic.Circuit

/-!
# Circuits that are nested deeply

Printing a circuit and sizing it go down into its groups by calls inside of calls, and
there may be only so many of them.  So a circuit that is nested too deeply is neither
printed nor sized, although it has a notation and a layout.
-/

namespace Schematic

namespace Circuit

/-- How many calls may be inside of one another. -/
def callLimit : Nat := 1000

/-! ## Printing -/

mutual

/-- How many calls inside of one another print a circuit. -/
def printingCalls : Circuit → Nat
  | .element _ => 5
  | .series members => 3 + memberCalls members
  | .parallel branches => 3 + branchCalls branches
  | .twoport links => 3 + linkCalls links
  | .link ⟨_, target⟩ => 2 + target.printingCalls

/-- The calls for the branches of a parallel group. -/
def branchCalls : List Circuit → Nat
  | [] => 0
  | branch :: rest => max (1 + branch.printingCalls) (branchCalls rest)

/-- The calls for the members of a series group, which print the branches of a parallel
group themselves. -/
def memberCalls : List Circuit → Nat
  | [] => 0
  | .parallel branches :: rest => max (3 + branchCalls branches) (memberCalls rest)
  | member :: rest => max (2 + member.printingCalls) (memberCalls rest)

def linkCalls : List (Link Circuit) → Nat
  | [] => 0
  | ⟨_, target⟩ :: rest => max (3 + target.printingCalls) (linkCalls rest)

end

/-- How many calls are around those that print the document for the journal. -/
def callsAroundPrinting : Nat := 16

def isPrintable (circuit : Circuit) : Bool :=
  callsAroundPrinting + circuit.printingCalls ≤ callLimit

/-! ## Sizing -/

mutual

/-- How many calls inside of one another size a circuit. -/
def sizingCalls : Circuit → Nat
  | .element _ => 4
  | .series members => 3 + partCalls members
  | .parallel branches => 3 + partCalls branches
  | .twoport links => 3 + targetCalls links
  | .link _ => 1

def partCalls : List Circuit → Nat
  | [] => 0
  | part :: rest => max part.sizingCalls (partCalls rest)

def targetCalls : List (Link Circuit) → Nat
  | [] => 0
  | ⟨_, target⟩ :: rest => max target.sizingCalls (targetCalls rest)

end

/-- How many calls are around those that size the document. -/
def callsAroundSizing : Nat := 7

def isSizable (circuit : Circuit) : Bool :=
  callsAroundSizing + circuit.sizingCalls ≤ callLimit

end Circuit

end Schematic
