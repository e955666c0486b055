import SeriesParallel.Decimal.Rounding

/-!
# Decimal — what a binary64 value is

A finite binary64 value is a sign, a natural mantissa and a power of two. All
decimal text is computed from this exact form, and a number is read as the
value of this form that lies nearest to it. Powers are spelled `Nat.pow`, which
means the same whatever is imported.
-/

namespace SeriesParallel.Decimal

/-! ## Taking a value apart -/

/-- A binary64 value taken apart: `finite negative m q` is `±m · 2 ^ q`. -/
inductive Binary64 where
  | undefined
  | infinite (negative : Bool)
  | finite (negative : Bool) (mantissa : Nat) (exponent : Int)
  deriving Repr, DecidableEq

/-- The parts of a 64-bit pattern: one sign bit, eleven exponent bits and 52
fraction bits. The lowest exponent marks values without the leading one bit,
the highest one infinities and undefined results. -/
def Binary64.ofBits (bits : Nat) : Binary64 :=
  let negative := bits / Nat.pow 2 63 % 2 == 1
  let exponent : Nat := bits / Nat.pow 2 52 % Nat.pow 2 11
  let fraction : Nat := bits % Nat.pow 2 52
  if exponent = 2047 then
    if fraction = 0 then infinite negative else undefined
  else if exponent = 0 then
    finite negative fraction (-1074)
  else
    finite negative (fraction + Nat.pow 2 52) ((exponent : Int) - 1075)

/-- The parts of a value. -/
def Binary64.ofFloat (x : Float) : Binary64 := ofBits x.toBits.toNat

/-! ## The value nearest to a fraction -/

namespace Binary64

/-- The exponent `k` with `2 ^ k ≤ num / den < 2 ^ (k + 1)`. The bit counts of
a positive fraction's two sides leave two candidates. -/
def magnitude (num den : Nat) : Int :=
  let k : Int := num.log2 - den.log2
  if num * Nat.pow 2 (-k).toNat < den * Nat.pow 2 k.toNat then k - 1 else k

/-- The bits of the positive value nearest to `num / den`, of two equally near
the one with the even mantissa. Mantissas have 53 bits as long as the exponent
is not the lowest one. The fraction bits carry over into the exponent bits, so
the sum is right also where rounding reaches the next power of two; what is
beyond the largest value is infinite. -/
def nearestBits (num den : Nat) : Nat :=
  if num = 0 then 0
  else
    let q := max (magnitude num den - 52) (-1074)
    let m := roundHalfEven (num * Nat.pow 2 (-q).toNat) (den * Nat.pow 2 q.toNat)
    min ((q + 1074).toNat * Nat.pow 2 52 + m) (2047 * Nat.pow 2 52)

/-- The positive value nearest to `num / den`. -/
def nearest (num den : Nat) : Float := Float.ofBits (nearestBits num den).toUInt64

end Binary64

end SeriesParallel.Decimal
