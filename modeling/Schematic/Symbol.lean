import Schematic.Circuit
import Schematic.Geometry

/-!
# Symbols

A symbol gives the elements of one kind a box in the drawing, a name, and the
two ports where wires meet the box.  A library of symbols has at most one for
each kind; the standard library has one for every kind, and other symbols of
positive size can take their places.
-/

namespace Schematic

/-- The box of an element, in its unrotated frame. -/
structure Symbol (α : Type) where
  family : String
  name : String
  width : α
  height : α
  /-- The left and the right port, measured from the top-left corner. -/
  ports : Point α × Point α

namespace Symbol

variable {α : Type} [Scalar α]

/-- The ports of a box at half its height on its left and right edges. -/
def centredPorts (width height : α) : Point α × Point α :=
  (⟨Scalar.zero, Scalar.half height⟩, ⟨width, Scalar.half height⟩)

def centred (family name : String) (width height : α) : Symbol α :=
  ⟨family, name, width, height, centredPorts width height⟩

/-- The name of a symbol that gives none. -/
def standardName : String := "Symbol"

/-- The width of a symbol that gives none. -/
def standardWidth : α := Scalar.ofNat 100

/-- The height of a symbol that gives none. -/
def standardHeight : α := Scalar.ofNat 40

/-- The symbol that a kind has from the start. -/
def standard : ElementKind → Symbol α
  | .resistor => centred "Resistor" "Resistor" standardWidth (Scalar.ofNat 30)
  | .impedance => centred "Impedance" "Impedance" standardWidth (Scalar.ofNat 30)
  | .capacitor => centred "Capacitor" "Capacitor" standardWidth (Scalar.ofNat 40)
  | .inductor => centred "Inductor" "Inductor" standardWidth (Scalar.ofNat 30)
  | .voltageSource =>
      centred "VoltageSource" "Voltage source" standardWidth (Scalar.ofNat 50)
  | .currentSource =>
      centred "CurrentSource" "Current source" standardWidth (Scalar.ofNat 50)
  | .openCircuit =>
      centred "OpenCircuit" "Open circuit" (Scalar.ofNat 60) (Scalar.ofNat 20)

end Symbol

/-- The symbols in use, at most one for each kind. -/
def SymbolLibrary (α : Type) : Type :=
  ElementKind → Option (Symbol α)

namespace SymbolLibrary

variable {α : Type} [Scalar α]

/-- The library that has the standard symbol for every kind. -/
def standard : SymbolLibrary α :=
  fun kind => some (Symbol.standard kind)

omit [Scalar α] in
/-- Sets or removes the symbol of one kind. -/
def update (library : SymbolLibrary α) (kind : ElementKind) (symbol : Option (Symbol α)) :
    SymbolLibrary α :=
  fun other => if other = kind then symbol else library other

omit [Scalar α] in
/-- The letters of the kinds that have a symbol, in order. -/
def letters (library : SymbolLibrary α) : List Char :=
  (ElementKind.all.filter fun kind => (library kind).isSome).map ElementKind.letter

end SymbolLibrary

/-- What is offered as the symbol of a kind. -/
structure SymbolOffer (α : Type) where
  symbol : Symbol α
  /-- Whether it is made as a symbol at all. -/
  isSymbol : Bool := true

/-- Why an offer is refused. -/
inductive OfferFault where
  | notSymbol (family : String)
  /-- Its box has no extent. -/
  | notPositive (family : String)
deriving DecidableEq, Repr

namespace OfferFault

def message : OfferFault → String
  | .notSymbol family => "Class " ++ family ++ " must inherit from SymbolBase."
  | .notPositive family =>
      "Symbol " ++ family ++ " must declare a positive width and height."

end OfferFault

namespace SymbolLibrary

variable {α : Type} [Scalar α]

/-- Takes an offered symbol into the library, if its box has a positive width
and height. -/
def register (library : SymbolLibrary α) (kind : ElementKind) (offer : SymbolOffer α) :
    Except OfferFault (SymbolLibrary α) :=
  let symbol := offer.symbol
  if !offer.isSymbol then .error (.notSymbol symbol.family)
  else if symbol.width ≤ Scalar.zero || symbol.height ≤ Scalar.zero then
    .error (.notPositive symbol.family)
  else .ok (library.update kind (some symbol))

omit [Scalar α] in
/-- The warning that goes with registering a symbol for a kind that has one. -/
def registrationWarnings (library : SymbolLibrary α) (kind : ElementKind) : List String :=
  if (library kind).isSome then
    ["Symbol for element kind '" ++ kind.name ++ "' is being redefined/overwritten."]
  else []

end SymbolLibrary

end Schematic
