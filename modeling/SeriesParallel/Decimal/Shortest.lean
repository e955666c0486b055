import SeriesParallel.Decimal.Binary64
import SeriesParallel.Decimal.Digits

/-!
# Decimal — the fewest digits that read back

Every binary64 value is read back from any decimal in the interval around it:
half the distance to each neighbour, the ends included when the mantissa is
even. Among the decimals in that interval the one with the fewest digits is
chosen, of those the nearest, and the upper one of two equally near.
-/

namespace SeriesParallel.Decimal

/-- The number `digits · 10 ^ exponent`. -/
structure Digits where
  digits : Nat
  exponent : Int
  deriving Repr, DecidableEq

/-- The same number with as few digits as possible. -/
def Digits.trim (d : Digits) : Digits :=
  if d.digits ≠ 0 ∧ d.digits % 10 = 0 then
    trim ⟨d.digits / 10, d.exponent + 1⟩
  else d
termination_by d.digits
decreasing_by omega

/-- A positive value and the interval that is read back as it, as fractions
over one denominator. -/
structure Interval where
  low : Nat
  value : Nat
  high : Nat
  denominator : Nat
  closed : Bool
  deriving Repr, DecidableEq

/-- The interval of `m · 2 ^ q`. Below a mantissa of `2 ^ 52` the neighbours
lie twice as close as above it. -/
def Interval.ofBinary (m : Nat) (q : Int) : Interval :=
  let scale := Nat.pow 2 (q - 2).toNat
  { low := (4 * m - if m = Nat.pow 2 52 then 1 else 2) * scale
    value := 4 * m * scale
    high := (4 * m + 2) * scale
    denominator := Nat.pow 2 (2 - q).toNat
    closed := m % 2 == 0 }

namespace Interval

/-- The interval in units of `10 ^ g`. -/
def inUnits (i : Interval) (g : Int) : Interval :=
  let up := Nat.pow 10 (-g).toNat
  { i with
    low := i.low * up
    value := i.value * up
    high := i.high * up
    denominator := i.denominator * Nat.pow 10 g.toNat }

/-- Whether the interval holds the whole number `n`. -/
def contains (i : Interval) (n : Nat) : Bool :=
  if i.closed then i.low ≤ n * i.denominator ∧ n * i.denominator ≤ i.high
  else i.low < n * i.denominator ∧ n * i.denominator < i.high

/-- The whole number in the interval nearest to the value, if there is one.
Only the two neighbours of the value need a look. -/
def nearest? (i : Interval) : Option Nat :=
  let n := i.value / i.denominator
  match i.contains n, i.contains (n + 1) with
  | true, true => some (if 2 * i.value < (2 * n + 1) * i.denominator then n else n + 1)
  | true, false => some n
  | false, true => some (n + 1)
  | false, false => none

/-- The first grid `10 ^ g`, `10 ^ (g - 1)`, … with a number in the interval,
after at most `tries` refinements. -/
def search (i : Interval) (g : Int) : (tries : Nat) → Digits
  | 0 => let u := i.inUnits g; ⟨u.value / u.denominator, g⟩
  | tries + 1 =>
    match (i.inUnits g).nearest? with
    | some n => ⟨n, g⟩
    | none => i.search (g - 1) tries

end Interval

/-- The power of ten of the leading decimal digit of `num / den`. For a
negative power of ten itself it is one less. -/
def leadingExponent (num den : Nat) : Int :=
  if den ≤ num then (digitCount (num / den) : Int) - 1 else -(digitCount (den / num) : Int)

/-- The fewest digits that read back as `m · 2 ^ q`. Seventeen always do. -/
def shortest (m : Nat) (q : Int) : Digits :=
  if m = 0 then ⟨0, 0⟩
  else
    let i := Interval.ofBinary m q
    (i.search (leadingExponent i.value i.denominator) 17).trim

end SeriesParallel.Decimal
