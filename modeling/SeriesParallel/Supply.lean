import SeriesParallel.Quantity

/-!
# Supply — what drives a circuit
-/

namespace SeriesParallel

/-- A voltage source or a current source of some magnitude. -/
inductive Supply (R : Type) where
  | voltage (magnitude : R)
  | current (magnitude : R)
  deriving Repr, DecidableEq

/-- The magnitude of a source of either kind. -/
def Supply.magnitude {R : Type} : Supply R → R
  | voltage v => v
  | current i => i

/-- A source as it is written in a description, given the text of a number. -/
def Supply.text {R : Type} (number : R → String) : Supply R → String
  | voltage v => "V." ++ number v
  | current i => "I." ++ number i

/-- The quantities of a circuit as a whole. -/
structure Totals (R : Type) where
  resistance : R
  voltage : R
  current : R
  power : R
  deriving Repr, DecidableEq

end SeriesParallel
