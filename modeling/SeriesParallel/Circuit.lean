import SeriesParallel.Description
import SeriesParallel.Network.Label
import SeriesParallel.Network.Normal
import SeriesParallel.Network.Propagation
import SeriesParallel.Network.Validation
import SeriesParallel.Totals

/-!
# Circuit — a network with its supply, solved and labelled

A circuit is built from a description in one go: the network is brought into
canonical form, checked, solved for its supply and labelled. It is built
completely or not at all.
-/

namespace SeriesParallel

section

variable {R : Type} [Quantity R]

/-- A solved and labelled circuit. -/
structure Circuit (R : Type) where
  name : String
  supply : Supply R
  root : Chain R
  totals : Totals R

namespace Circuit

/-- The circuit that a description describes. -/
def ofDescription (d : Description R) : Except (Failure R) (Circuit R) := do
  let root := d.topology.normalize
  root.validate
  let totals ← d.supply.resolve root.resistance
  let root := ((root.propagate totals.current).assignLabels {}).1
  .ok ⟨d.name, d.supply, root, totals⟩

/-- Every element of a circuit, in canonical order. -/
def components (c : Circuit R) : List (Element R) := c.root.components

/-- The first element of the network under a label. -/
def find? (c : Circuit R) (label : String) : Option (Element R) :=
  c.root.components.find? (·.label == label)

end Circuit

end

/-- The circuit that a line describes. -/
def Circuit.parse (input : String) : Except (Failure Float) (Circuit Float) := do
  Circuit.ofDescription (← Description.parse input)

end SeriesParallel
