import Mathlib

/-!
# Binary64 — the numbers of the format

A binary64 value unpacks to a mantissa and a power of two. The mantissa has 53
bits, or fewer at the lowest exponent. A pair of this form is packed and
unpacked again without a change, and a larger one is packed as infinity.
-/

namespace SeriesParallel.Binary64

open Float.Model Float.Model.UnpackedFloat

/-- The form of the numbers of binary64. -/
structure Canonical (m : ℕ) (e : ℤ) : Prop where
  mantissa_lt : m < 2 ^ 53
  le_exponent : -1074 ≤ e
  exponent_le : e ≤ 971
  normal : 2 ^ 52 ≤ m ∨ e = -1074

/-- The number that an unpacked value stands for, if it is one that is not
negative. Both zeros stand for zero. -/
def number? : UnpackedFloat → Option ℚ
  | .zero _ => some 0
  | .finite .positive m e _ => some (m * 2 ^ e)
  | _ => none

/-! ## Unpacking -/

/-- The value of a sign, a biased exponent and the bits after the leading one. -/
def ofFields (s : Sign) (w : BitVec 11) (v : BitVec 52) : UnpackedFloat :=
  if w.toNat = 2047 then
    if v.toNat = 0 then .infinity s else .notANumber
  else if w.toNat = 0 then
    if h : v.toNat = 0 then .zero s else .finite s v.toNat (-1074) (Nat.pos_of_ne_zero h)
  else .finite s (2 ^ 52 + v.toNat) (w.toNat - 1075) (by omega)

theorem ofFields_normal {s : Sign} {w : BitVec 11} {v : BitVec 52} (hpos : 0 < w.toNat)
    (hlt : w.toNat < 2047) :
    ofFields s w v = .finite s (2 ^ 52 + v.toNat) (w.toNat - 1075) (by omega) := by
  rw [ofFields, if_neg (by omega), if_neg (by omega)]

theorem ofFields_lowest {s : Sign} {v : BitVec 52} (hv : 0 < v.toNat) :
    ofFields s 0 v = .finite s v.toNat (-1074) hv := by
  simp [ofFields, hv.ne']

theorem toNat_implicit (v : BitVec 52) : (1#1 ++ v).toNat = 2 ^ 52 + v.toNat := by
  rw [BitVec.toNat_append, ← Nat.shiftLeft_add_eq_or_of_lt v.isLt]
  simp [Nat.shiftLeft_eq]

theorem unpack_eq_ofFields (b : BitVec 64) :
    UnpackedFloat.unpack .binary64 b = ofFields (.ofBitVec (@unpackSign .binary64 b))
      (@unpackExponent .binary64 b) (@unpackMantissa .binary64 b) := by
  have infinite (w : BitVec 11) : w = -1#11 ↔ w.toNat = 2047 := BitVec.toNat_eq
  have lowest (w : BitVec 11) : w = 0#11 ↔ w.toNat = 0 := BitVec.toNat_eq
  have zero (v : BitVec 52) : v = 0#52 ↔ v.toNat = 0 := BitVec.toNat_eq
  unfold UnpackedFloat.unpack ofFields
  simp only [infinite, lowest, zero, toNat_implicit]
  split
  · rfl
  · split
    · rename_i h
      simp only [h]
      rfl
    · rfl

theorem unpack_packComponents (s : Sign) (w : BitVec 11) (v : BitVec 52) :
    UnpackedFloat.unpack .binary64 (packComponents .binary64 s w v) = ofFields s w v := by
  rw [unpack_eq_ofFields, unpackSign_packComponents, Sign.ofBitVec_toBitVec,
    unpackExponent_packComponents, unpackMantissa_packComponents]

/-- **Every finite value unpacks to the form of the format.** -/
theorem canonical_of_unpack {f : Float.Model} {s : Sign} {m : ℕ} {e : ℤ} {hm : 0 < m}
    (h : f.unpack = .finite s m e hm) : Canonical m e := by
  rw [Float.Model.unpack, unpack_eq_ofFields] at h
  generalize @unpackExponent .binary64 f.toBits.toBitVec = w at h
  generalize @unpackMantissa .binary64 f.toBits.toBitVec = v at h
  have exponent_lt : w.toNat < 2048 := w.isLt
  have fraction_lt : v.toNat < 2 ^ 52 := v.isLt
  unfold ofFields at h
  split at h
  · split at h <;> cases h
  · split at h
    · split at h
      · cases h
      · cases h
        exact ⟨by omega, by omega, by omega, .inr rfl⟩
    · cases h
      exact ⟨by omega, by omega, by omega, .inl (by omega)⟩

/-! ## Packing -/

theorem unpack_pack_zero (s : Sign) : (Float.Model.pack (.zero s)).unpack = .zero s := by
  cases s <;> rfl

theorem unpack_pack_infinity (s : Sign) :
    (Float.Model.pack (.infinity s)).unpack = .infinity s := by
  cases s <;> rfl

/-- The exponent field of a value with 53 bits. -/
def biased (e : ℤ) : ℕ := (e + 1075).toNat

theorem unpack_pack_finite {m : ℕ} {e : ℤ} (hm : 0 < m) :
    (Float.Model.pack (.finite .positive m e hm)).unpack =
      if 2047 ≤ biased e then .infinity .positive
      else if m.log2 = 52 then ofFields .positive (.ofNat 11 (biased e)) (.ofNat 52 m)
      else ofFields .positive 0 (.ofNat 52 m) := by
  have field : (e + Format.binary64.exponentBias + Format.binary64.mantissaBitsWithoutImplicit).toNat
      = biased e := by
    rw [add_assoc]
    rfl
  have mantissaBits : Format.binary64.mantissaBits = 53 := rfl
  show UnpackedFloat.unpack .binary64 (UnpackedFloat.pack .binary64 _) = _
  simp only [UnpackedFloat.pack, field, mantissaBits]
  by_cases hbig : 2047 ≤ biased e
  · rw [if_pos hbig, if_pos (by omega)]
    rfl
  · rw [if_neg hbig, if_neg (by omega)]
    by_cases bits : m.log2 = 52
    · rw [if_pos bits, if_pos (by omega), unpack_packComponents]
    · rw [if_neg bits, if_neg (by omega)]
      exact unpack_packComponents _ _ _

/-- **A value of the form of the format is packed without a change.** -/
theorem unpack_pack_of_canonical {m : ℕ} {e : ℤ} (hm : 0 < m) (h : Canonical m e) :
    (Float.Model.pack (.finite .positive m e hm)).unpack = .finite .positive m e hm := by
  obtain ⟨mantissa_lt, le_exponent, exponent_le, normal⟩ := h
  have biased_eq : (biased e : ℤ) = e + 1075 := by
    unfold biased
    omega
  rw [unpack_pack_finite, if_neg (by omega)]
  by_cases hbits : 2 ^ 52 ≤ m
  · have bits : m.log2 = 52 := (Nat.log2_eq_iff hm.ne').mpr ⟨hbits, mantissa_lt⟩
    have exponent : (BitVec.ofNat 11 (biased e)).toNat = biased e := by
      rw [BitVec.toNat_ofNat, Nat.mod_eq_of_lt (by omega)]
    have fraction : (BitVec.ofNat 52 m).toNat = m - 2 ^ 52 := by
      rw [BitVec.toNat_ofNat]
      omega
    rw [if_pos bits, ofFields_normal (by omega) (by omega)]
    simp only [exponent, fraction, finite.injEq, true_and]
    omega
  · have bits : m.log2 ≠ 52 := fun hlog => hbits (hlog ▸ Nat.log2_self_le hm.ne')
    have fraction : (BitVec.ofNat 52 m).toNat = m := by
      rw [BitVec.toNat_ofNat, Nat.mod_eq_of_lt (by omega)]
    rw [if_neg bits, ofFields_lowest (by omega)]
    simp only [fraction, finite.injEq, true_and]
    exact (normal.resolve_left hbits).symm

/-- A mantissa of 53 bits with a larger exponent is packed as infinity. -/
theorem unpack_pack_of_lt {m : ℕ} {e : ℤ} (hm : 0 < m) (h : 971 < e) :
    (Float.Model.pack (.finite .positive m e hm)).unpack = .infinity .positive := by
  rw [unpack_pack_finite, if_pos]
  unfold biased
  omega

end SeriesParallel.Binary64
