import Schematic.Drawing.Figure
import Schematic.Drawing.Markup
import Schematic.Number.Decimal
import Schematic.Text.Lines

/-!
# Drawings in markup

A figure is written as a scalable drawing: the wires, the elements and the dots
on junctions are a group each.  Writing fails at the first number that has no
decimal text, and at the first element whose kind has no symbol to take a name
from.
-/

namespace Schematic

/-- Why a figure cannot be written. -/
inductive DrawingFault where
  | infiniteNumber
  | undefinedNumber
  | unknownSymbol (kind : ElementKind)
deriving DecidableEq, Repr

namespace Svg

/-- What is written, or the first fault. -/
abbrev Written (β : Type) := Except DrawingFault β

def number (value : Float) : Written String :=
  match Number.Binary64.ofFloat value with
  | .undefined => .error .undefinedNumber
  | .infinite _ => .error .infiniteNumber
  | finite => .ok (Number.coordinateText (finite.value?.getD 0))

/-- A type of coordinates that can be written in a drawing. -/
class Writable (α : Type) where
  write : α → Written String

instance : Writable Float := ⟨number⟩

instance : Writable Rat := ⟨fun value => .ok (Number.coordinateText value)⟩

open Writable (write)

variable {α : Type} [Writable α]

def numbers (values : List α) : Written String := do
  let texts ← values.mapM write
  return " ".intercalate texts

def pointText (point : Point α) : Written String :=
  numbers [point.x, point.y]

def stepText [Scalar α] : PathStep α → Written String
  | .move target => do return "M " ++ (← pointText target)
  | .line target => do return "L " ++ (← pointText target)
  | .arch radius => do
      let radii ← numbers [radius, radius]
      let span ← write (Scalar.ofNat 2 * radius)
      return "a " ++ radii ++ " 0 0 1 " ++ span ++ " 0"

def pathMarkup [Scalar α] (steps : List (PathStep α)) : Written Markup := do
  let texts ← steps.mapM stepText
  return .leaf "path" [("d", " ".intercalate texts)]

/-- The attribute of a fill that is not inherited. -/
def fillAttributes : Fill → Attributes
  | .inherited => []
  | .colour name => [("fill", name)]

def circleMarkup (centre : Point α) (radius : α) (fill : Fill) : Written Markup := do
  let x ← write centre.x
  let y ← write centre.y
  let radius ← write radius
  let place : Attributes := [("cx", x), ("cy", y), ("r", radius)]
  return .leaf "circle" (place ++ fillAttributes fill)

def shapeMarkup [Scalar α] : Shape α → Written Markup
  | .path steps => pathMarkup steps
  | .rectangle corner width height fill => do
      let x ← write corner.x
      let y ← write corner.y
      let width ← write width
      let height ← write height
      let frame : Attributes := [("x", x), ("y", y), ("width", width), ("height", height)]
      return .leaf "rect" (frame ++ fillAttributes fill)
  | .circle centre radius fill => circleMarkup centre radius fill

def transformText (transform : Transform α) : Written String := do
  let x ← write transform.centre.x
  let y ← write transform.centre.y
  let shift := "translate(" ++ x ++ "," ++ y ++ ")"
  return if transform.rotated then shift ++ " rotate(90)" else shift

/-- The name of the group of an element of the given kind. -/
def className : ElementKind → String
  | .resistor => "resistor"
  | .capacitor => "capacitor"
  | .inductor => "inductor"
  | .voltageSource => "voltage_source"
  | .currentSource => "current_source"
  | .impedance => "impedance"
  | .openCircuit => "open_circuit"

/-- The title of an element: the name of its symbol and its label. -/
def title (symbols : SymbolLibrary α) (element : Element) : Written String :=
  match symbols element.kind with
  | none => .error (.unknownSymbol element.kind)
  | some symbol => .ok (Text.trimmedEnd (symbol.name ++ " " ++ element.label))

/-- How the text of a label is aligned at its anchor. -/
def anchorAttributes (beside : Bool) : Attributes :=
  if beside then [("text-anchor", "start"), ("dominant-baseline", "middle")]
  else [("text-anchor", "middle")]

def labelMarkup (settings : DrawingSettings α) (label : Label α) : Written Markup := do
  let x ← write label.anchor.x
  let y ← write label.anchor.y
  let size ← write settings.fontSize
  let place : Attributes := [("x", x), ("y", y)]
  let style : Attributes :=
    [("font-size", size), ("font-family", settings.fontFamily), ("fill", settings.stroke),
      ("stroke", "none")]
  return .element "text" (place ++ anchorAttributes label.beside ++ style) label.text []

def elementMarkup [Scalar α] (symbols : SymbolLibrary α) (settings : DrawingSettings α)
    (figure : ElementFigure α) : Written (List Markup) := do
  let transform ← transformText figure.transform
  let title ← title symbols figure.element
  let shapes ← figure.shapes.mapM shapeMarkup
  let group := Markup.group "g"
    [("class", className figure.element.kind), ("transform", transform)]
    (.element "title" [] title [] :: shapes)
  let labels ← figure.label.toList.mapM (labelMarkup settings)
  return group :: labels

def strokeAttributes (settings : DrawingSettings α) : Written Attributes := do
  let width ← write settings.strokeWidth
  return [("stroke", settings.stroke), ("stroke-width", width), ("fill", "none")]

/-- A group of lines with the given name. -/
def strokeGroup (settings : DrawingSettings α) (name : String)
    (children : Written (List Markup)) : Written Markup := do
  let attributes ← strokeAttributes settings
  let children ← children
  return .group "g" (("class", name) :: attributes) children

/-- The group of the dots, if there are any. -/
def junctionGroup (settings : DrawingSettings α) (junctions : List (Point α)) :
    Written (List Markup) := do
  if junctions.isEmpty then
    return []
  else
    let dots ← junctions.mapM fun point =>
      circleMarkup point settings.junctionRadius .inherited
    return [.group "g" [("class", "junctions"), ("fill", settings.stroke)] dots]

/-- The size of the drawing, with a margin on all sides. -/
def frameAttributes [Scalar α] (settings : DrawingSettings α) (bounds : Box α) :
    Written Attributes := do
  let margins := Scalar.ofNat 2 * settings.margin
  let width := bounds.right - bounds.left + margins
  let height := bounds.bottom - bounds.top + margins
  let widthText ← write width
  let heightText ← write height
  let view ← numbers
    [bounds.left - settings.margin, bounds.top - settings.margin, width, height]
  return [("width", widthText), ("height", heightText), ("viewBox", view)]

/-- The name space of the tags of drawings. -/
def nameSpace : String := "http://www.w3.org/2000/svg"

def markup [Scalar α] (symbols : SymbolLibrary α) (settings : DrawingSettings α)
    (figure : Figure α) : Written Markup := do
  let frame ← frameAttributes settings figure.bounds
  let wires ← strokeGroup settings "wires" <| figure.wires.mapM fun wire =>
    pathMarkup [.move wire.start, .line wire.finish]
  let elements ← strokeGroup settings "elements" do
    return (← figure.elements.mapM (elementMarkup symbols settings)).flatten
  let junctions ← junctionGroup settings figure.junctions
  return .group "svg" (("xmlns", nameSpace) :: frame) (wires :: elements :: junctions)

def draw [Scalar α] (symbols : SymbolLibrary α) (settings : DrawingSettings α)
    (layout : Layout α) : Written Text.Coded := do
  let markup ← markup symbols settings (.ofLayout settings layout)
  return markup.text

end Svg

end Schematic
