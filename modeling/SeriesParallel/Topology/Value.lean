import SeriesParallel.Decimal.Reader
import SeriesParallel.Text.Blank

/-!
# Topology — values with unit suffixes

A value is a number, optionally followed by one letter that scales it. The
scaling is one multiplication more, rounded on its own.
-/

namespace SeriesParallel

/-- The factor of a unit suffix. -/
def unitFactor? : Char → Option Float
  | 'p' => some 1e-12
  | 'n' => some 1e-9
  | 'u' => some 1e-6
  | '\u00b5' => some 1e-6
  | 'm' => some 1e-3
  | 'k' => some 1e3
  | 'K' => some 1e3
  | 'M' => some 1e6
  | 'G' => some 1e9
  | _ => none

/-- The value of a text, white space around it aside. -/
def readValue? (text : String) : Option Float :=
  let cs := Text.trim text.toList
  match cs.getLast? with
  | none => none
  | some c =>
    match unitFactor? c with
    | some factor => (Decimal.read? cs.dropLast).map (· * factor)
    | none => Decimal.read? cs

end SeriesParallel
