import Schematic.Alignment.Check
import Schematic.Nesting
import Schematic.Proofs.Layout.Sizing

/-!
# Findings that can be printed

What is found in a layout is told with the circuit at which it was found.  The circuits
in the layout of a document are the parts of the document, so if the document can be
printed, then all of them can.
-/

namespace Schematic

/-! ## The calls for parts -/

namespace Circuit

end Circuit

/-! ## Placed circuits -/

variable {α : Type} [Scalar α] {symbols : SymbolLibrary α} {settings : LayoutSettings α}

namespace Measure

end Measure

end Schematic
