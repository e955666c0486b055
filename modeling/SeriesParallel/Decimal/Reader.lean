import SeriesParallel.Decimal.Binary64
import SeriesParallel.Decimal.Digits

/-!
# Decimal — reading a number

A number is an optional sign and either a word (`inf`, `infinity`, `nan`, in
any letter case) or digits with at most one point among them and at least one
digit, followed by an optional power of ten. Nothing else is a number. The
value is the binary64 nearest to the number as written, save that the digits
of a power of ten no longer count once it has reached `2 ^ 16`.
-/

namespace SeriesParallel.Decimal

/-- A decimal numeral: the digits read as one number, and the power of ten
that scales them. -/
structure Numeral where
  digits : Nat
  exponent : Int
  deriving Repr, DecidableEq

/-- Splits off a leading sign; the flag is set for a minus. -/
def splitSign : List Char → Bool × List Char
  | '-' :: cs => (true, cs)
  | '+' :: cs => (false, cs)
  | cs => (false, cs)

/-- The size of a power of ten: the number that its digits spell, up to the
digit with which it reaches `2 ^ 16`. -/
def readPower (ds : List Char) : Nat :=
  ds.foldl (fun n c => if n < Nat.pow 2 16 then 10 * n + digitValue c else n) 0

/-- The power of ten after the digits: nothing, or `e` with an optional sign
and at least one digit. -/
def power? : List Char → Option Int
  | [] => some 0
  | c :: cs =>
    if c = 'e' ∨ c = 'E' then
      let (negative, ds) := splitSign cs
      if ds.isEmpty || !ds.all isDigit then none
      else some (if negative then -(readPower ds : Int) else readPower ds)
    else none

/-- Digits, an optional point and digits, and an optional power of ten. -/
def numeral? (cs : List Char) : Option Numeral :=
  let whole := cs.takeWhile isDigit
  let rest := cs.dropWhile isDigit
  let (fraction, rest) := match rest with
    | '.' :: rest => (rest.takeWhile isDigit, rest.dropWhile isDigit)
    | rest => ([], rest)
  if whole.isEmpty && fraction.isEmpty then none
  else (power? rest).map fun p =>
    ⟨readDigits (whole ++ fraction), p - fraction.length⟩

/-- The binary64 value nearest to `digits · 10 ^ exponent`. As `10` is more
than `2 ^ 3`, a number far beyond the range of the format is known by its
count of bits, and its power of ten need not be computed. -/
def Numeral.toFloat (n : Numeral) : Float :=
  let bits : Int := n.digits.log2 + 3 * n.exponent
  if n.digits = 0 ∨ n.exponent < 0 ∧ bits < -1100 then 0.0
  else if 0 ≤ n.exponent ∧ 1100 < bits then 1.0 / 0.0
  else Binary64.nearest (n.digits * Nat.pow 10 n.exponent.toNat) (Nat.pow 10 (-n.exponent).toNat)

/-- The values that are written as words. -/
def word? (cs : List Char) : Option Float :=
  let lower := cs.map Char.toLower
  if lower = ['i', 'n', 'f'] ∨ lower = ['i', 'n', 'f', 'i', 'n', 'i', 't', 'y'] then
    some (1.0 / 0.0)
  else if lower = ['n', 'a', 'n'] then some (0.0 / 0.0)
  else none

/-- The value of a number, if the text is one. -/
def read? (cs : List Char) : Option Float :=
  let (negative, body) := splitSign cs
  let value := word? body <|> (numeral? body).map Numeral.toFloat
  value.map fun x => if negative then -x else x

end SeriesParallel.Decimal
