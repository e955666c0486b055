import SeriesParallel.Circuit
import SeriesParallel.Schematic.Layout

/-!
# Schematic — the drawing of a circuit
-/

namespace SeriesParallel

/-- The schematic of a circuit. -/
def Circuit.schematic {R : Type} (c : Circuit R) : Grid := c.root.layout.grid

end SeriesParallel
