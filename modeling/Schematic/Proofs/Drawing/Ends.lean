import Mathlib.Tactic.Ring
import Schematic.Proofs.Tiling.Nesting

/-!
# Ends of pictures

The picture of an element has two ends: the outer ends of its leads, or the terminals
of an open circuit.  A layout turns an element by exchanging the axes of its frame, and
a drawing turns its picture by a quarter around the middle of its box.  Either way the
ends of the picture are where the layout has the ports of the element.
-/

namespace Schematic

/-! ## Pictures -/

/-- The left and the right end of a picture: where its first path starts and its second
path finishes, or the middles of its circles if it has nothing but two circles. -/
def Artwork.ends? : List (Shape Rat) → Option (Point Rat × Point Rat)
  | .path [.move left, .line _] :: .path [.move _, .line right] :: _ => some (left, right)
  | [.circle left _ _, .circle right _ _] => some (left, right)
  | _ => none

/-- A picture of any kind ends in the middle of the left and right edges of its box. -/
theorem Artwork.ends?_shapes (terminalRadius : Rat) (kind : ElementKind) (width height : Rat) :
    ends? (shapes terminalRadius kind width height) = some (⟨-width / 2, 0⟩, ⟨width / 2, 0⟩) := by
  cases kind <;> rfl

namespace ElementFigure

/-- The ends of the picture of a drawn element, in the drawing. -/
def ends? (figure : ElementFigure Rat) : Option (Point Rat × Point Rat) :=
  (Artwork.ends? figure.shapes).map fun ends =>
    (figure.transform.apply ends.1, figure.transform.apply ends.2)

/-- The quarter turn of a picture and the exchange of axes in a frame agree at the ports. -/
theorem ends?_ofPlacement {extent : Extent Rat} (centred : extent.HasCentredPorts)
    (frame : Frame Rat) (drawing : DrawingSettings Rat) (element : Element) :
    let placement := barePlacement extent frame
    (ofPlacement drawing placement element).ends? =
      some (placement.leftEnd, placement.rightEnd) := by
  obtain ⟨left, right⟩ := centred
  obtain ⟨origin, rotated⟩ := frame
  have leftHalf : ∀ start size : Rat, start + size / 2 + -size / 2 = start := by
    intros
    ring
  have rightHalf : ∀ start size : Rat, start + size / 2 + size / 2 = start + size := by
    intros
    ring
  simp only [ends?, ofPlacement, Artwork.ends?_shapes, Option.map_some, Option.some_inj]
  refine Prod.ext (Point.eq_of_coordinates ?_ ?_) (Point.eq_of_coordinates ?_ ?_) <;>
    cases rotated <;>
    simp [Transform.apply, Transform.ofPlacement, unrotatedSize, barePlacement, Frame.offset,
      Point.transposed, Placement.leftEnd, Placement.rightEnd, left, right, leftHalf, rightHalf]

end ElementFigure

/-! ## Placed elements -/

theorem Layout.HasSymbol.ends? {symbols : SymbolLibrary Rat} {node : Layout Rat}
    (hasSymbol : node.HasSymbol symbols) (centred : symbols.IsCentred)
    (drawing : DrawingSettings Rat) {element : Element}
    (isElement : node.placement.element? = some element) :
    (ElementFigure.ofPlacement drawing node.placement element).ends? =
      some (node.placement.leftEnd, node.placement.rightEnd) := by
  obtain ⟨symbol, frame, known, placed⟩ := hasSymbol element isElement
  rw [placed]
  exact ElementFigure.ends?_ofPlacement
    ((centred _ _ known).extent element).hasCentredPorts frame drawing element

end Schematic
