import Schematic.Connectivity
import Schematic.Drawing.Shape
import Schematic.Settings.Basic

/-!
# Figures

A figure is everything that is drawn of a layout, with its exact coordinates:
the frame of the drawing, the wires, the elements with their pictures and
labels, and a dot on every junction.
-/

namespace Schematic

/-- A rectangle of the plane. -/
structure Box (α : Type) where
  left : α
  top : α
  right : α
  bottom : α
deriving DecidableEq, Repr

namespace Box

variable {α : Type} [Scalar α]

/-- The smallest box around a point and others. -/
def around (first : Point α) (rest : List (Point α)) : Box α where
  left := Scalar.smallest first.x (rest.map Point.x)
  top := Scalar.smallest first.y (rest.map Point.y)
  right := Scalar.largest first.x (rest.map Point.x)
  bottom := Scalar.largest first.y (rest.map Point.y)

/-- The smallest box around all boxes of a layout. -/
def ofLayout (layout : Layout α) : Box α :=
  around layout.placement.origin <|
    layout.walk.flatMap fun node => [node.placement.origin, node.placement.bottomRight]

end Box

/-- How a picture is moved to its place: turned a quarter clockwise, or not, and
then shifted. -/
structure Transform (α : Type) where
  /-- Where the middle of the picture goes. -/
  centre : Point α
  rotated : Bool
deriving DecidableEq, Repr

namespace Transform

variable {α : Type} [Scalar α]

def apply (transform : Transform α) (point : Point α) : Point α :=
  transform.centre + (if transform.rotated then ⟨-point.y, point.x⟩ else point)

/-- The transform of the picture of a placed element. -/
def ofPlacement (placement : Placement α) : Transform α where
  centre :=
    ⟨placement.origin.x + Scalar.half placement.width,
      placement.origin.y + Scalar.half placement.height⟩
  rotated := placement.rotated

end Transform

/-- The text beside an element. -/
structure Label (α : Type) where
  text : String
  anchor : Point α
  /-- Whether it stands beside its anchor, and not centred above it. -/
  beside : Bool
deriving DecidableEq, Repr

namespace Label

variable {α : Type} [Scalar α]

/-- The label of a placed element: above its box, or to the right of a turned
one. -/
def ofPlacement (placement : Placement α) (text : String) : Label α where
  text
  anchor :=
    if placement.rotated then
      ⟨placement.origin.x + placement.width + Scalar.ofNat 4,
        placement.origin.y + Scalar.half placement.height⟩
    else
      ⟨placement.origin.x + Scalar.half placement.width,
        placement.origin.y - Scalar.ofNat 2⟩
  beside := placement.rotated

end Label

/-- A drawn element. -/
structure ElementFigure (α : Type) where
  element : Element
  transform : Transform α
  shapes : List (Shape α)
  /-- Its label, if it is shown. -/
  label : Option (Label α)

namespace ElementFigure

variable {α : Type} [Scalar α]

/-- The size of the box of a placed element before it was turned. -/
def unrotatedSize (placement : Placement α) : α × α :=
  if placement.rotated then (placement.height, placement.width)
  else (placement.width, placement.height)

def ofPlacement (settings : DrawingSettings α) (placement : Placement α) (element : Element) :
    ElementFigure α :=
  let (width, height) := unrotatedSize placement
  { element
    transform := .ofPlacement placement
    shapes := Artwork.shapes settings.terminalRadius element.kind width height
    label :=
      if settings.showLabels && !element.label.isEmpty then
        some (.ofPlacement placement element.label)
      else none }

end ElementFigure

/-- Everything that is drawn of a layout. -/
structure Figure (α : Type) where
  bounds : Box α
  wires : List (Wire α)
  elements : List (ElementFigure α)
  junctions : List (Point α)

namespace Figure

variable {α : Type} [Scalar α]

def ofLayout (settings : DrawingSettings α) (layout : Layout α) : Figure α where
  bounds := .ofLayout layout
  wires := layout.allWires
  elements := layout.walk.filterMap fun node =>
    node.placement.element?.map (.ofPlacement settings node.placement)
  junctions := (Network.ofLayout layout).junctions

end Figure

end Schematic
