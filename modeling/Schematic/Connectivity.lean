import Schematic.Layout.Basic

/-!
# Connectivity

The ports of elements and the wires of a layout make a network.  Its vertices
are the ports and the ends of wires, rounded so that points that were computed
in different ways coincide; a wire joins all the vertices on it, from each to
the next.  Vertices that are joined belong to one electrical node.  The body of
an element joins nothing.
-/

namespace Schematic

/-- The points and joints of a layout. -/
structure Network (α : Type) where
  /-- The ports of elements, one for every element that has a port there. -/
  ports : List (Point α)
  /-- The points where something ends, in order, each once. -/
  vertices : List (Point α)
  /-- The neighbours on wires, the earlier one first, each pair once. -/
  edges : List (Point α × Point α)

namespace Network

variable {α : Type} [Scalar α]

/-- The number of decimal places to which coordinates are rounded. -/
def places : Nat := 6

/-- A rounded point, which stands for all points near it. -/
def key (point : Point α) : Point α :=
  point.rounded places

def keyWire (wire : Wire α) : Wire α :=
  ⟨key wire.start, key wire.finish⟩

def elementPorts (placement : Placement α) : List (Point α) :=
  match placement.element? with
  | some _ => [key placement.leftEnd, key placement.rightEnd]
  | none => []

/-- Whether a coordinate lies strictly between two others. -/
def between (coordinate first second : α) : Bool :=
  Scalar.smaller first second < coordinate && coordinate < Scalar.larger first second

/-- Whether a point lies on a horizontal or vertical wire, apart from its
ends. -/
def inside (point : Point α) (wire : Wire α) : Bool :=
  if wire.isVertical && wire.finish.x == point.x then
    between point.y wire.start.y wire.finish.y
  else if wire.isHorizontal && wire.finish.y == point.y then
    between point.x wire.start.x wire.finish.x
  else false

/-- The vertices on a wire in order, with both its ends. -/
def stops (vertices : List (Point α)) (wire : Wire α) : List (Point α) :=
  Point.ordered (wire.start :: wire.finish :: vertices.filter (inside · wire))

/-- The pairs of members that follow one another. -/
def neighbours {β : Type} : List β → List (β × β)
  | first :: second :: rest => (first, second) :: neighbours (second :: rest)
  | _ => []

/-- Whether two pairs of points are the same. -/
def sameEdge (first second : Point α × Point α) : Bool :=
  first.1.same second.1 && first.2.same second.2

/-- Adds a pair to those that are there already. -/
def insertEdge (edges : List (Point α × Point α)) (edge : Point α × Point α) :
    List (Point α × Point α) :=
  if edges.any (sameEdge edge) then edges else edge :: edges

def ofWires (ports : List (Point α)) (wires : List (Wire α)) : Network α :=
  let vertices := Point.ordered (ports ++ wires.flatMap fun wire => [wire.start, wire.finish])
  { ports
    vertices
    edges := (wires.flatMap fun wire => neighbours (stops vertices wire)).foldl insertEdge [] }

def ofLayout (layout : Layout α) : Network α :=
  ofWires (layout.walk.flatMap fun node => elementPorts node.placement)
    (layout.allWires.map keyWire)

/-- Edges are ordered by their first points, and by their second ones where
these are the same. -/
def edgeBefore (first second : Point α × Point α) : Bool :=
  first.1.before second.1 || (first.1.same second.1 && first.2.before second.2)

def orderedEdges (network : Network α) : List (Point α × Point α) :=
  network.edges.mergeSort fun first second => !edgeBefore second first

/-! ## Counting connections -/

def hasVertex (network : Network α) (vertex : Point α) : Bool :=
  network.vertices.any vertex.same

def degree (network : Network α) (vertex : Point α) : Nat :=
  network.edges.countP fun edge => vertex.same edge.1 || vertex.same edge.2

/-- How much is connected at a vertex: its neighbours and the ports there. -/
def weight (network : Network α) (vertex : Point α) : Nat :=
  network.degree vertex + network.ports.countP vertex.same

def connectionCount (network : Network α) (point : Point α) : Nat :=
  let vertex := key point
  if network.hasVertex vertex then network.weight vertex else 0

/-- The vertices at which three or more connections meet, in order. -/
def junctions (network : Network α) : List (Point α) :=
  network.vertices.filter fun vertex => 3 ≤ network.weight vertex

/-! ## Electrical nodes -/

/-- Merges two ordered lists of points into one. -/
def mergeOrdered (first second : List (Point α)) : List (Point α) :=
  first.merge second fun one other => !other.before one

/-- Puts a class among classes that are ordered by their first points. -/
def insertClass (points : List (Point α)) : List (List (Point α)) → List (List (Point α))
  | [] => [points]
  | first :: rest =>
      match points.head?, first.head? with
      | some least, some other =>
          if other.before least then first :: insertClass points rest
          else points :: first :: rest
      | _, _ => points :: first :: rest

/-- Makes one class of the classes of two points. -/
def joinClasses (classes : List (List (Point α))) (edge : Point α × Point α) :
    List (List (Point α)) :=
  let touched (points : List (Point α)) : Bool :=
    points.any edge.1.same || points.any edge.2.same
  let (joined, others) := classes.partition touched
  insertClass (joined.foldl mergeOrdered []) others

/-- The electrical nodes: the classes of joined vertices.  Each class is in
order, and the classes are ordered by their first points. -/
def electricalNodes (network : Network α) : List (List (Point α)) :=
  network.edges.foldl joinClasses (network.vertices.map ([·]))

/-- The class of a point among some classes. -/
def classOf? (classes : List (List (Point α))) (point : Point α) :
    Option (List (Point α)) :=
  let vertex := key point
  classes.find? fun points => points.any vertex.same

/-- The electrical node at a point, if anything ends there. -/
def nodeOf? (network : Network α) (point : Point α) : Option (List (Point α)) :=
  classOf? network.electricalNodes point

/-- The electrical nodes at the two ports of every labelled element of a layout,
in the order of the nodes of the layout. -/
def portNodes (network : Network α) (layout : Layout α) :
    List (String × Option (List (Point α)) × Option (List (Point α))) :=
  let classes := network.electricalNodes
  layout.walk.filterMap fun node =>
    match node.placement.element? with
    | some element =>
        if element.label.isEmpty then none
        else some (element.label, classOf? classes node.placement.leftEnd,
          classOf? classes node.placement.rightEnd)
    | none => none

end Network

end Schematic
