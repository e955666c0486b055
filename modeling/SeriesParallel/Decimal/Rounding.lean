/-!
# Decimal — rounding a quotient

All rounding in this library is that of an exact quotient to the nearest whole
number, where a half goes to the even neighbour.
-/

namespace SeriesParallel.Decimal

/-- The quotient `num / den` rounded to the nearest whole number, a half to
the even neighbour. -/
def roundHalfEven (num den : Nat) : Nat :=
  let n := num / den
  let twice := 2 * (num % den)
  if twice < den then n
  else if den < twice then n + 1
  else n + n % 2

end SeriesParallel.Decimal
