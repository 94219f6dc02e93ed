import Schematic.Symbol

/-!
# The artwork of elements

Every kind of element has its own picture, made of a few shapes.  A picture is
drawn around the middle of its box, with the signal running from the left edge
to the right one.  The shapes depend on the size of the box alone, apart from
the terminals of an open circuit, whose radius is a setting.
-/

namespace Schematic

/-- A step of a path. -/
inductive PathStep (α : Type) where
  | move (target : Point α)
  | line (target : Point α)
  /-- Draws half a circle over the line to the point two radii to the right. -/
  | arch (radius : α)
deriving DecidableEq, Repr

/-- What a shape is filled with. -/
inductive Fill where
  /-- What the drawing says. -/
  | inherited
  | colour (name : String)
deriving DecidableEq, Repr

/-- A shape of a picture. -/
inductive Shape (α : Type) where
  | path (steps : List (PathStep α))
  /-- A rectangle with its top-left corner. -/
  | rectangle (corner : Point α) (width height : α) (fill : Fill)
  | circle (centre : Point α) (radius : α) (fill : Fill)
deriving DecidableEq, Repr

namespace Artwork

variable {α : Type} [Scalar α]

/-- A point on the line of the signal. -/
def onSignal (x : α) : Point α :=
  ⟨x, Scalar.zero⟩

def lead (start finish : α) : Shape α :=
  .path [.move (onSignal start), .line (onSignal finish)]

/-- The leads between the edges of a box and a body in its middle. -/
def leads (width bodyHalf : α) : List (Shape α) :=
  [lead (Scalar.half (-width)) (-bodyHalf), lead bodyHalf (Scalar.half width)]

/-- The size of the body of a resistor. -/
def bodySize (width height : α) : α × α :=
  (Scalar.smaller (Scalar.ofNat 70) (width * Scalar.tenths 7),
    Scalar.smaller (Scalar.ofNat 20) (height * Scalar.tenths 7))

def boxed (fill : Fill) (width height : α) : List (Shape α) :=
  let (bodyWidth, bodyHeight) := bodySize width height
  leads width (Scalar.half bodyWidth) ++
    [.rectangle ⟨Scalar.half (-bodyWidth), Scalar.half (-bodyHeight)⟩ bodyWidth bodyHeight fill]

/-- The colour of the body of an impedance. -/
def impedanceColour : String := "#d0d0d0"

def plate (x reach : α) : Shape α :=
  .path [.move ⟨x, -reach⟩, .line ⟨x, reach⟩]

def capacitor (width height : α) : List (Shape α) :=
  let gap : α := Scalar.ofNat 5
  let reach := height * Scalar.tenths 4
  leads width gap ++ [plate (-gap) reach, plate gap reach]

def turns : Nat := 3

def inductor (width : α) : List (Shape α) :=
  let radius := Scalar.smaller (Scalar.ofNat 10) (width / Scalar.ofNat 8)
  let half := Scalar.ofNat turns * radius
  leads width half ++
    [.path (.move (onSignal (-half)) :: List.replicate turns (.arch radius))]

/-- The radius of the body of a source. -/
def sourceRadius (width height : α) : α :=
  Scalar.half (Scalar.smaller height width) - Scalar.ofNat 2

/-- The round body of a source between two leads. -/
def sourceBody (width radius : α) : List (Shape α) :=
  leads width radius ++ [.circle (onSignal Scalar.zero) radius .inherited]

/-- A round body with a plus on the left and a minus on the right. -/
def voltageSource (width height : α) : List (Shape α) :=
  let radius := sourceRadius width height
  let mark := radius / Scalar.ofNat 4
  let offset := Scalar.half radius
  sourceBody width radius ++
    [.path [
      .move (onSignal (-offset - mark)), .line (onSignal (-offset + mark)),
      .move ⟨-offset, -mark⟩, .line ⟨-offset, mark⟩,
      .move (onSignal (offset - mark)), .line (onSignal (offset + mark))]]

/-- A round body with an arrow to the right. -/
def currentSource (width height : α) : List (Shape α) :=
  let radius := sourceRadius width height
  let tip := radius * Scalar.tenths 6
  let head := radius / Scalar.ofNat 4
  sourceBody width radius ++
    [.path [
      .move (onSignal (-tip)), .line (onSignal tip),
      .move ⟨tip - head, -head⟩, .line (onSignal tip), .line ⟨tip - head, head⟩]]

def openCircuit (terminalRadius width : α) : List (Shape α) :=
  [Scalar.half (-width), Scalar.half width].map fun x =>
    .circle (onSignal x) terminalRadius (.colour "white")

/-- The picture of an element in a box of the given size. -/
def shapes (terminalRadius : α) (kind : ElementKind) (width height : α) : List (Shape α) :=
  match kind with
  | .resistor => boxed .inherited width height
  | .impedance => boxed (.colour impedanceColour) width height
  | .capacitor => capacitor width height
  | .inductor => inductor width
  | .voltageSource => voltageSource width height
  | .currentSource => currentSource width height
  | .openCircuit => openCircuit terminalRadius width

end Artwork

end Schematic
