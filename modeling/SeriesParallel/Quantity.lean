/-!
# Quantity — the numbers a network is solved in

Resistances, voltages, currents and powers are values of a type `R` with the
few operations below. The solver is written once over `Quantity R`; it runs on
binary64 (`Float`) and is reasoned about over the exact rationals (`Rat`).
-/

namespace SeriesParallel

/-- The arithmetic of electrical quantities. -/
class Quantity (R : Type) extends Zero R, One R, Add R, Mul R, Div R, LT R, BEq R where
  /-- The value a sum starts from. It leaves every addend as it is. -/
  sumStart : R
  /-- Whether a value is a number rather than an infinity or an undefined result. -/
  isFinite : R → Bool
  /-- The order can be tested. -/
  decidableLT : DecidableLT R

namespace Quantity

variable {R : Type} [Quantity R]

instance : DecidableLT R := decidableLT

/-- The sum of a list, added from left to right. -/
def sum (xs : List R) : R := xs.foldl (· + ·) sumStart

end Quantity

/-- Binary64 sums start from `-0.0`, the only value that changes no addend:
`-0.0 + x` is `x` for every `x`, while `0.0 + -0.0` is `0.0`. -/
instance : Quantity Float where
  zero := 0.0
  one := 1.0
  sumStart := -0.0
  isFinite := Float.isFinite
  decidableLT := Float.decLt

/-- Exact rationals: every value is finite. -/
instance : Quantity Rat where
  zero := 0
  one := 1
  sumStart := 0
  isFinite _ := true
  decidableLT := inferInstance

end SeriesParallel
