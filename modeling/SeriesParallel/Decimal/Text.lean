import SeriesParallel.Decimal.Shortest

/-!
# Decimal — numbers as text

Two spellings of a binary64 value by its shortest digits: **plain**, always
positional and without a superfluous point, and **marked**, which shows that
the number is not a whole-number type (`1.0`) and turns to powers of ten for
very large and very small values.
-/

namespace SeriesParallel.Decimal

/-- Digits with a point before the last `places` of them, with zeros in front
where there are too few. -/
def withPoint (ds : List Char) (places : Nat) : List Char :=
  let padded := List.replicate (places + 1 - ds.length) '0' ++ ds
  let whole := padded.length - places
  if places = 0 then padded else padded.take whole ++ '.' :: padded.drop whole

/-- A number in positional notation: `300`, `0.05`. -/
def Digits.positional (d : Digits) : List Char :=
  if d.digits = 0 then ['0']
  else withPoint (digitsOf d.digits ++ List.replicate d.exponent.toNat '0') (-d.exponent).toNat

/-- A number as one digit, a fraction and a power of ten: `1.5e-7`. -/
def Digits.scientific (d : Digits) : List Char :=
  match digitsOf d.digits with
  | [] => []
  | c :: cs =>
    let power := d.exponent + cs.length
    let fraction := if cs.isEmpty then [] else '.' :: cs
    let sign := if power < 0 then ['-'] else []
    c :: fraction ++ 'e' :: sign ++ digitsOf power.natAbs

/-- The minus sign of a negative value. -/
def sign (negative : Bool) : List Char := if negative then ['-'] else []

/-- The plain text of a value: its shortest digits in positional notation,
`NaN`, `inf` or `-inf`. -/
def plain (x : Float) : String :=
  match Binary64.ofFloat x with
  | .undefined => "NaN"
  | .infinite negative => String.ofList (sign negative ++ ['i', 'n', 'f'])
  | .finite negative m q => String.ofList (sign negative ++ (shortest m q).positional)

/-- Whether a number other than zero is written with a power of ten: when it is
below `10 ^ -4`, or at least `10 ^ 16`. -/
def Digits.isExtreme (d : Digits) : Bool :=
  let leading := d.exponent + digitCount d.digits - 1
  d.digits ≠ 0 ∧ (leading < -4 ∨ 16 ≤ leading)

/-- The marked text of a value: a whole number keeps `.0`, and an extreme one
is written with a power of ten. -/
def marked (x : Float) : String :=
  match Binary64.ofFloat x with
  | .undefined => "NaN"
  | .infinite negative => String.ofList (sign negative ++ ['i', 'n', 'f'])
  | .finite negative m q =>
    let d := shortest m q
    let body :=
      if d.isExtreme then d.scientific
      else if 0 ≤ d.exponent then d.positional ++ ['.', '0']
      else d.positional
    String.ofList (sign negative ++ body)

end SeriesParallel.Decimal
