import Schematic.Geometry
import Schematic.Text.Coded

/-!
# Settings

The spacing of a layout and the style of a drawing can be set.  This file holds
the two groups of settings with their standard values.
-/

namespace Schematic

/-- Where a narrow branch of a parallel group is placed: at the left bus or in the
middle.  Any other name stands for the left bus as well. -/
inductive BranchAlignment where
  | left
  | center
  | other (name : String)
deriving DecidableEq, Repr

namespace BranchAlignment

def ofName (name : String) : BranchAlignment :=
  if name = "left" then .left
  else if name = "center" then .center
  else .other name

def name : BranchAlignment → String
  | .left => "left"
  | .center => "center"
  | .other name => name

theorem name_ofName (text : String) : (ofName text).name = text := by
  unfold ofName
  split
  · next same => exact same.symm
  · split
    · next same => exact same.symm
    · rfl

end BranchAlignment

/-- The spacing of a layout: the gap between parallel branches, the least width of the
slot of a shunt, the wire from the signal line down to it, the gap above a return rail,
and the top-left corner. -/
structure LayoutSettings (α : Type) where
  parallelSpacing : α
  shuntStub : α
  shuntLead : α
  railClearance : α
  originX : α
  originY : α
  branchAlignment : BranchAlignment
  validate : Bool
deriving Repr

namespace LayoutSettings

variable {α : Type} [Scalar α]

def standard : LayoutSettings α where
  parallelSpacing := Scalar.ofNat 20
  shuntStub := Scalar.ofNat 80
  shuntLead := Scalar.ofNat 20
  railClearance := Scalar.ofNat 20
  originX := Scalar.zero
  originY := Scalar.zero
  branchAlignment := .left
  validate := false

omit [Scalar α] in
def origin (settings : LayoutSettings α) : Point α :=
  ⟨settings.originX, settings.originY⟩

end LayoutSettings

/-- The style of a drawing.  The colour and the font are written as they are given. -/
structure DrawingSettings (α : Type) where
  margin : α
  stroke : Text.Coded
  strokeWidth : α
  fontSize : α
  fontFamily : Text.Coded
  junctionRadius : α
  terminalRadius : α
  showLabels : Bool
deriving Repr

namespace DrawingSettings

variable {α : Type} [Scalar α]

def standard : DrawingSettings α where
  margin := Scalar.ofNat 30
  stroke := "black"
  strokeWidth := Scalar.ofNat 2
  fontSize := Scalar.ofNat 12
  fontFamily := "sans-serif"
  junctionRadius := Scalar.ofNat 3
  terminalRadius := Scalar.ofNat 5
  showLabels := true

end DrawingSettings

/-- All settings. -/
structure Settings (α : Type) where
  layout : LayoutSettings α
  drawing : DrawingSettings α
deriving Repr

namespace Settings

variable {α : Type} [Scalar α]

def standard : Settings α :=
  ⟨.standard, .standard⟩

end Settings

end Schematic
