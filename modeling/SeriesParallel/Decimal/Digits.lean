/-!
# Decimal — digits

Natural numbers as decimal digits, in both directions.
-/

namespace SeriesParallel.Decimal

/-- The decimal digits of a natural number, without leading zeros; zero is
`0`. -/
def digitsOf (n : Nat) : List Char := Nat.toDigits 10 n

/-- The number of decimal digits of `n`; zero has none. -/
def digitCount (n : Nat) : Nat :=
  if n = 0 then 0 else digitCount (n / 10) + 1

/-- Whether a character is one of the ten ASCII digits. -/
def isDigit (c : Char) : Bool := '0' ≤ c ∧ c ≤ '9'

/-- The value of an ASCII digit. -/
def digitValue (c : Char) : Nat := c.toNat - '0'.toNat

/-- Joins every two neighbours among the digits of a number in base `b`, the
lowest first. The results are its digits in base `b * b`. -/
def joinPairs (b : Nat) : List Nat → List Nat
  | x :: y :: ds => (x + b * y) :: joinPairs b ds
  | ds => ds

theorem length_joinPairs_le (b : Nat) : ∀ ds, (joinPairs b ds).length ≤ ds.length
  | [] => Nat.le_refl _
  | [_] => Nat.le_refl _
  | _ :: _ :: ds => by
    have := length_joinPairs_le b ds
    simp only [joinPairs, List.length_cons]
    omega

/-- The number with given digits in base `b`, the lowest first. Neighbours are
joined until one digit is left, so that the factors of every multiplication
are about equally long. -/
def ofDigits (b : Nat) : List Nat → Nat
  | [] => 0
  | [x] => x
  | x :: y :: ds => ofDigits (b * b) ((x + b * y) :: joinPairs b ds)
termination_by ds => ds.length
decreasing_by
  have := length_joinPairs_le b ds
  simp only [List.length_cons]
  omega

/-- Joining neighbours keeps the number. -/
theorem ofDigits_joinPairs (b : Nat) (ds : List Nat) :
    ofDigits (b * b) (joinPairs b ds) = ofDigits b ds := by
  match ds with
  | [] => simp [joinPairs, ofDigits]
  | [_] => simp [joinPairs, ofDigits]
  | x :: y :: ds => rw [joinPairs, ofDigits]

/-- A digit in front counts once, and all others one place higher. -/
theorem ofDigits_cons (b x : Nat) (ds : List Nat) :
    ofDigits b (x :: ds) = x + b * ofDigits b ds := by
  match ds with
  | [] => simp [ofDigits]
  | y :: ds =>
    have h := length_joinPairs_le b ds
    rw [ofDigits, ofDigits_cons (b * b) (x + b * y) (joinPairs b ds), ofDigits_joinPairs,
      ofDigits_cons b y ds, Nat.mul_add, ← Nat.mul_assoc, Nat.add_assoc]
termination_by ds.length
decreasing_by all_goals (simp only [List.length_cons]; omega)

/-- The number that decimal digits spell. -/
def readDigits (ds : List Char) : Nat := ofDigits 10 (ds.reverse.map digitValue)

/-- A nonempty list of ASCII digits as a number. -/
def natural? (ds : List Char) : Option Nat :=
  if ds.isEmpty || !ds.all isDigit then none else some (readDigits ds)

end SeriesParallel.Decimal
