import SeriesParallel.Decimal.Rounding
import SeriesParallel.Decimal.Text

/-!
# Decimal — a fixed number of places

A binary64 value rounded to `p` decimal places. The exact value is rounded; a
value halfway between two neighbours goes to the even one.
-/

namespace SeriesParallel.Decimal

/-- `m · 2 ^ q` in units of `10 ^ -places`, rounded. -/
def scaled (m : Nat) (q : Int) (places : Nat) : Nat :=
  roundHalfEven (m * Nat.pow 2 q.toNat * Nat.pow 10 places) (Nat.pow 2 (-q).toNat)

/-- The text of a value with exactly `places` decimals. The sign of a negative
value stays, also where all digits are zero. -/
def fixed (x : Float) (places : Nat) : List Char :=
  match Binary64.ofFloat x with
  | .undefined => ['N', 'a', 'N']
  | .infinite negative => sign negative ++ ['i', 'n', 'f']
  | .finite negative m q => sign negative ++ withPoint (digitsOf (scaled m q places)) places

end SeriesParallel.Decimal
