import SeriesParallel.Decimal.Binary64
import SeriesParallel.Proofs.Binary64.Rounding

/-!
# Binary64 — the parts of a float

The parts that decimal texts are computed from are those that a float unpacks
to. They are of the form of the format, and they determine the bits of every
float that is not undefined.
-/

namespace SeriesParallel.Binary64

open Float.Model Float.Model.UnpackedFloat

/-! ## Parts and unpacked values -/

/-- The parts of an unpacked value. -/
def partsOf : UnpackedFloat → Decimal.Binary64
  | .notANumber => .undefined
  | .infinity s => .infinite (s == .negative)
  | .zero s => .finite (s == .negative) 0 (-1074)
  | .finite s m e _ => .finite (s == .negative) m e

theorem ofBitVec_beq_negative (b : BitVec 1) :
    (Sign.ofBitVec b == .negative) = (b.toNat == 1) := by
  obtain rfl | rfl : b = 0#1 ∨ b = 1#1 := by decide +revert
  · rfl
  · rfl

/-- The parts of a pattern, by its three fields. -/
theorem partsOf_ofFields (s : BitVec 1) (w : BitVec 11) (v : BitVec 52) :
    partsOf (ofFields (.ofBitVec s) w v) =
      if w.toNat = 2047 then
        if v.toNat = 0 then .infinite (s.toNat == 1) else .undefined
      else if w.toNat = 0 then .finite (s.toNat == 1) v.toNat (-1074)
      else .finite (s.toNat == 1) (v.toNat + 2 ^ 52) (w.toNat - 1075) := by
  unfold ofFields
  split
  · split
    · rw [partsOf, ofBitVec_beq_negative]
    · rfl
  · split
    · split
      · rename_i zero
        rw [partsOf, ofBitVec_beq_negative, zero]
      · rw [partsOf, ofBitVec_beq_negative]
    · rw [partsOf, ofBitVec_beq_negative, Nat.add_comm]

theorem toNat_unpackSign (b : BitVec 64) :
    (@unpackSign .binary64 b).toNat = b.toNat / 2 ^ 63 % 2 := by
  rw [← Nat.shiftRight_eq_div_pow]
  exact BitVec.extractLsb'_toNat 63 1 b

theorem toNat_unpackExponent (b : BitVec 64) :
    (@unpackExponent .binary64 b).toNat = b.toNat / 2 ^ 52 % 2 ^ 11 := by
  rw [← Nat.shiftRight_eq_div_pow]
  exact BitVec.extractLsb'_toNat 52 11 b

theorem toNat_unpackMantissa (b : BitVec 64) :
    (@unpackMantissa .binary64 b).toNat = b.toNat % 2 ^ 52 :=
  BitVec.extractLsb'_toNat 0 52 b

/-- **A float is taken apart as it unpacks.** -/
theorem ofFloat_eq (x : Float) : Decimal.Binary64.ofFloat x = partsOf x.toModel.unpack := by
  rw [Float.Model.unpack, unpack_eq_ofFields, partsOf_ofFields, toNat_unpackSign,
    toNat_unpackExponent, toNat_unpackMantissa]
  rfl

/-- **A finite float has a mantissa and an exponent.** -/
theorem exists_finite {x : Float} (h : x.isFinite) :
    ∃ negative m q, Decimal.Binary64.ofFloat x = .finite negative m q := by
  have finite : x.toModel.unpack.isFinite := h
  rw [ofFloat_eq]
  cases hu : x.toModel.unpack with
  | zero s => exact ⟨_, _, _, rfl⟩
  | finite s m e hm => exact ⟨_, _, _, rfl⟩
  | infinity s =>
    rw [hu] at finite
    cases finite
  | notANumber =>
    rw [hu] at finite
    cases finite

/-- Only what is undefined has no parts. -/
theorem ofFloat_ne_undefined {x : Float} (h : ¬x.isNaN) :
    Decimal.Binary64.ofFloat x ≠ .undefined := by
  have defined : ¬x.toModel.unpack.isNaN := h
  rw [ofFloat_eq]
  cases hu : x.toModel.unpack with
  | notANumber =>
    rw [hu] at defined
    exact absurd rfl defined
  | zero s => nofun
  | finite s m e hm => nofun
  | infinity s => nofun

/-- **The parts of a finite float are of the form of the format.** -/
theorem canonical_of_ofFloat {x : Float} {negative : Bool} {m : ℕ} {q : ℤ}
    (h : Decimal.Binary64.ofFloat x = .finite negative m q) : Canonical m q := by
  rw [ofFloat_eq] at h
  cases hu : x.toModel.unpack with
  | zero s =>
    rw [hu] at h
    cases h
    exact ⟨by norm_num, le_refl _, by norm_num, .inr rfl⟩
  | finite s m e hm =>
    rw [hu] at h
    cases h
    exact canonical_of_unpack hu
  | infinity s =>
    rw [hu] at h
    cases h
  | notANumber =>
    rw [hu] at h
    cases h

/-! ## Parts and bits -/

/-- The bits of a value with given parts. -/
def bitsOf : Decimal.Binary64 → ℕ
  | .undefined => 2 ^ 64
  | .infinite negative => negative.toNat * 2 ^ 63 + 2047 * 2 ^ 52
  | .finite negative m q => negative.toNat * 2 ^ 63 + (q + 1074).toNat * 2 ^ 52 + m

/-- The bits of a pattern are found again from its parts. -/
theorem bitsOf_ofBits {b : ℕ} (lt : b < 2 ^ 64)
    (defined : Decimal.Binary64.ofBits b ≠ .undefined) : bitsOf (Decimal.Binary64.ofBits b) = b := by
  have negative : (b / 2 ^ 63 % 2 == 1).toNat = b / 2 ^ 63 % 2 := by
    rcases Nat.mod_two_eq_zero_or_one (b / 2 ^ 63) with h | h <;> rw [h] <;> rfl
  simp only [Decimal.Binary64.ofBits, Nat.pow_eq] at defined ⊢
  split at defined
  · split at defined
    · rename_i top nothing
      rw [if_pos top, if_pos nothing, bitsOf, negative]
      omega
    · exact absurd rfl defined
  · rename_i top
    rw [if_neg top]
    split
    · rw [bitsOf, negative]
      omega
    · rw [bitsOf, negative]
      omega

/-- **Floats of the same parts are the same bit by bit**, unless they are undefined. -/
theorem toBits_eq_of_ofFloat_eq {x y : Float} (defined : ¬x.isNaN)
    (h : Decimal.Binary64.ofFloat x = Decimal.Binary64.ofFloat y) : x.toBits = y.toBits := by
  have hx := ofFloat_ne_undefined defined
  have hy := hx
  rw [h] at hy
  refine UInt64.toNat_inj.mp ?_
  rw [← bitsOf_ofBits x.toBits.toNat_lt hx, ← bitsOf_ofBits y.toBits.toNat_lt hy]
  exact congrArg bitsOf h

end SeriesParallel.Binary64
