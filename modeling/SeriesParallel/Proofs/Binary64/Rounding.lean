import SeriesParallel.Proofs.Binary64.Packing

/-!
# Binary64 — rounding

An operation computes its exact result and rounds it once: to the nearest of
the multiples of a power of two, where the power leaves 53 bits, or fewer at
the lowest exponent. Two consequences are all that is used of it. Rounding does
not pass a number of the format, and it at most doubles or halves a result.
-/

namespace SeriesParallel.Binary64

open Float.Model Float.Model.UnpackedFloat

/-! ## Nearest multiples -/

/-- `n` steps of `2 ^ t` are nearest to `x`, on the grid that binary64 has there. -/
structure Nearest (x : ℚ) (n : ℕ) (t : ℤ) : Prop where
  le_exponent : -1074 ≤ t
  normal : t = -1074 ∨ 2 ^ 52 * (2 : ℚ) ^ t ≤ x
  le_add : n * (2 : ℚ) ^ t ≤ x + 2 ^ t / 2
  le_add' : x ≤ n * (2 : ℚ) ^ t + 2 ^ t / 2

namespace Nearest

variable {x : ℚ} {n k : ℕ} {t : ℤ}

/-- Rounding does not go below a multiple that is not above the number. -/
theorem le_of_le (h : Nearest x n t) (hk : k * (2 : ℚ) ^ t ≤ x) : k ≤ n := by
  have step : (0 : ℚ) < 2 ^ t := by positivity
  have near : (k : ℚ) * 2 ^ t < (n + 1) * 2 ^ t := by linarith [h.le_add']
  have lt : (k : ℚ) < n + 1 := lt_of_mul_lt_mul_right near step.le
  exact Nat.lt_succ_iff.mp (by exact_mod_cast lt)

/-- Rounding does not go above a multiple that is not below the number. -/
theorem ge_of_ge (h : Nearest x n t) (hk : x ≤ k * (2 : ℚ) ^ t) : n ≤ k := by
  have step : (0 : ℚ) < 2 ^ t := by positivity
  have near : (n : ℚ) * 2 ^ t < (k + 1) * 2 ^ t := by linarith [h.le_add]
  have lt : (n : ℚ) < k + 1 := lt_of_mul_lt_mul_right near step.le
  exact Nat.lt_succ_iff.mp (by exact_mod_cast lt)

/-- A multiple that the grid has, and that is not the lowest one, has 53 bits. -/
theorem normal_le (h : Nearest x n t) : t = -1074 ∨ 2 ^ 52 ≤ n := by
  refine h.normal.imp_right fun hx => h.le_of_le ?_
  push_cast
  exact hx

/-- **Rounding at most doubles.** -/
theorem le_two_mul (h : Nearest x n t) (hx : 0 ≤ x) : n * (2 : ℚ) ^ t ≤ 2 * x := by
  rcases Nat.eq_zero_or_pos n with rfl | hn
  · simpa using hx
  · have step : (0 : ℚ) < 2 ^ t := by positivity
    have one_le : (1 : ℚ) ≤ n := by exact_mod_cast hn
    have := mul_le_mul_of_nonneg_right one_le step.le
    linarith [h.le_add]

/-- **Rounding at most halves**, unless the number is below all positive ones. -/
theorem le_two_mul' (h : Nearest x n t) (hx : (2 : ℚ) ^ (-1074 : ℤ) ≤ x) :
    x ≤ 2 * (n * (2 : ℚ) ^ t) := by
  have step : (0 : ℚ) < 2 ^ t := by positivity
  have hx : (1 : ℕ) * (2 : ℚ) ^ t ≤ x := by
    rcases h.normal with rfl | normal
    · simpa using hx
    · push_cast
      linarith
  have one_le : (1 : ℚ) ≤ n := by exact_mod_cast h.le_of_le hx
  have := mul_le_mul_of_nonneg_right one_le step.le
  linarith [h.le_add']

end Nearest

/-! ## Rounded values -/

/-- An unpacked value is the result of rounding a number. -/
def RoundedTo (x : ℚ) (u : UnpackedFloat) : Prop :=
  ∃ n t, Nearest x n t ∧ (number? u = some (n * (2 : ℚ) ^ t) ∨
    u = .infinity .positive ∧ (2 : ℚ) ^ (1024 : ℤ) ≤ n * (2 : ℚ) ^ t)

/-- An extended mantissa stands for a number between its mantissa and the next
one. The round bit tells the half that the number is in, and the sticky bit
that it is not at the beginning of this half. -/
def Describes (em : ExtendedMantissa) (y : ℚ) : Prop :=
  match em.roundBit, em.stickyBit with
  | false, false => y = em.mantissa
  | false, true => em.mantissa < y ∧ y < em.mantissa + 1 / 2
  | true, false => y = em.mantissa + 1 / 2
  | true, true => em.mantissa + 1 / 2 < y ∧ y < em.mantissa + 1

namespace Describes

variable {em : ExtendedMantissa} {y : ℚ}

theorem bounds (h : Describes em y) : em.mantissa ≤ y ∧ y < em.mantissa + 1 := by
  obtain ⟨m, r, s⟩ := em
  cases r <;> cases s <;> simp only [Describes] at h <;> constructor <;> linarith

theorem shiftRightOne (h : Describes em y) : Describes em.shiftRightOne (y / 2) := by
  obtain ⟨m, r, s⟩ := em
  have parity : ((m % 2 : ℕ) : ℚ) + 2 * ((m / 2 : ℕ) : ℚ) = m := by
    exact_mod_cast Nat.mod_add_div m 2
  have odd : (1 != 0) = true := rfl
  rcases Nat.mod_two_eq_zero_or_one m with hm | hm <;> rw [hm] at parity <;>
    push_cast at parity <;> cases r <;> cases s <;>
    simp only [Describes, ExtendedMantissa.shiftRightOne, hm, odd, bne_self_eq_false,
      Bool.or_false, Bool.or_true] at h ⊢
  -- an exact number is described by an equation, and any other by two bounds
  any_goals apply And.intro
  all_goals linarith

theorem shiftRight (h : Describes em y) (k : ℕ) : Describes (em >>> k) (y / 2 ^ k) := by
  show Describes (k.repeat ExtendedMantissa.shiftRightOne em) _
  induction k with
  | zero => simpa [Nat.repeat] using h
  | succ k ih =>
    have shifted := ih.shiftRightOne
    rw [Nat.repeat, pow_succ, ← div_div]
    exact shifted

/-- The rounded mantissa is nearest. -/
theorem roundedMantissa (h : Describes em y) :
    em.roundedMantissa ≤ y + 1 / 2 ∧ y ≤ em.roundedMantissa + 1 / 2 := by
  obtain ⟨m, r, s⟩ := em
  have parity : ((m % 2 : ℕ) : ℚ) = 0 ∨ ((m % 2 : ℕ) : ℚ) = 1 := by
    exact_mod_cast Nat.mod_two_eq_zero_or_one m
  cases r <;> cases s <;>
    simp only [Describes, ExtendedMantissa.roundedMantissa, ExtendedMantissa.accuracy,
      Accuracy.roundToNearestEven] at h ⊢
  · constructor <;> linarith
  · constructor <;> linarith
  · push_cast
    rcases parity with hm | hm <;> rw [hm] <;> constructor <;> linarith
  · push_cast
    constructor <;> linarith

theorem nearest {t : ℤ} (h : Describes em y) (ht : -1074 ≤ t)
    (normal : t = -1074 ∨ (2 : ℚ) ^ 52 ≤ y) : Nearest (y * 2 ^ t) em.roundedMantissa t := by
  obtain ⟨near, near'⟩ := h.roundedMantissa
  have step : (0 : ℚ) < 2 ^ t := by positivity
  refine ⟨ht, normal.imp_right fun h => ?_, ?_, ?_⟩
  · gcongr
  · have := mul_le_mul_of_nonneg_right near step.le
    linarith
  · have := mul_le_mul_of_nonneg_right near' step.le
    linarith

end Describes

/-! ## Rounding in the model -/

theorem targetExponent_eq_max (x : ℤ) :
    Format.binary64.targetExponent x = max (x - 53) (-1074) := by
  simp only [Format.targetExponent, Format.mantissaBits, Format.minExponent]
  norm_num

/-- The exponent of the grid that a result is rounded on. -/
theorem targetExponent_eq (m : ℕ) (e : ℤ) :
    Format.binary64.targetExponent (totalExponent m e) = max (m.log2 + e - 52) (-1074) := by
  rw [targetExponent_eq_max, totalExponent]
  omega

/-- A mantissa that is short enough is not shifted. -/
theorem shiftToTargetExponent_of_lt {m : ℕ} {e : ℤ} (hm : m < 2 ^ 53) (he : -1074 ≤ e) :
    shiftToTargetExponent .binary64 m e .exact = (⟨m, false, false⟩, e) := by
  have bits : m.log2 ≤ 52 := by
    rcases Nat.eq_zero_or_pos m with rfl | hpos
    · decide
    · exact Nat.lt_succ_iff.mp ((Nat.log2_lt hpos.ne').mpr hm)
  have stay : (max ((m.log2 : ℤ) + e - 52) (-1074) - e).toNat = 0 := by omega
  rw [shiftToTargetExponent, targetExponent_eq, shiftToExponent, stay]
  simp [ExtendedMantissa.ofMantissaAndAccuracy, HShiftRight.hShiftRight, Nat.repeat]

/-- A mantissa that rounding has carried over is shifted once. -/
theorem shiftToTargetExponent_carry {e : ℤ} (he : -1074 ≤ e) :
    shiftToTargetExponent .binary64 (2 ^ 53) e .exact = (⟨2 ^ 52, false, false⟩, e + 1) := by
  have once : (max (((2 ^ 53 : ℕ).log2 : ℤ) + e - 52) (-1074) - e).toNat = 1 := by
    rw [Nat.log2_two_pow]
    omega
  rw [shiftToTargetExponent, targetExponent_eq, shiftToExponent, once]
  rfl

/-- A mantissa of 53 bits, or fewer at the lowest exponent, keeps its value when
it is packed, or else is too large for the format. -/
theorem number?_unpack_pack {n : ℕ} {t : ℤ} (hn : 0 < n) (lt : n < 2 ^ 53) (ht : -1074 ≤ t)
    (normal : t = -1074 ∨ 2 ^ 52 ≤ n) :
    number? (Float.Model.pack (.finite .positive n t hn)).unpack = some (n * (2 : ℚ) ^ t) ∨
      (Float.Model.pack (.finite .positive n t hn)).unpack = .infinity .positive ∧
        (2 : ℚ) ^ (1024 : ℤ) ≤ n * (2 : ℚ) ^ t := by
  by_cases htop : t ≤ 971
  · rw [unpack_pack_of_canonical hn ⟨lt, ht, htop, normal.symm⟩]
    exact .inl rfl
  · refine .inr ⟨unpack_pack_of_lt hn (by omega), ?_⟩
    have mantissa : (2 : ℚ) ^ (52 : ℤ) ≤ n := by
      exact_mod_cast normal.resolve_left (by omega)
    calc (2 : ℚ) ^ (1024 : ℤ) = 2 ^ (52 : ℤ) * 2 ^ (972 : ℤ) := by
          rw [← zpow_add₀ (by norm_num)]
          norm_num
      _ ≤ n * 2 ^ t := by
          have power : (2 : ℚ) ^ (972 : ℤ) ≤ 2 ^ t :=
            zpow_le_zpow_right₀ (by norm_num) (by omega)
          gcongr

/-- The first shift of rounding: to the grid of the result. -/
theorem shiftToTargetExponent_eq {m : ℕ} {e : ℤ} {a : Accuracy}
    (bits : 2 ^ 52 ≤ m ∨ e ≤ -1074) : ∃ (k : ℕ) (t : ℤ), e + k = t ∧ -1074 ≤ t ∧
      m.log2 ≤ 52 + k ∧ (t = -1074 ∨ m.log2 = 52 + k) ∧
      shiftToTargetExponent .binary64 m e a =
        (ExtendedMantissa.ofMantissaAndAccuracy m a >>> k, t) := by
  have bits : 52 ≤ m.log2 ∨ e ≤ -1074 :=
    bits.imp_left fun hm => (Nat.le_log2 (by omega)).mpr hm
  have reach : e + (max ((m.log2 : ℤ) + e - 52) (-1074) - e).toNat =
      max ((m.log2 : ℤ) + e - 52) (-1074) := by omega
  refine ⟨(max ((m.log2 : ℤ) + e - 52) (-1074) - e).toNat, _, reach, by omega, by omega,
    by omega, ?_⟩
  rw [shiftToTargetExponent, targetExponent_eq, shiftToExponent, reach]

/-- The end of rounding: a mantissa that was carried over is shifted once more. -/
theorem roundedTo_carry {x : ℚ} {n : ℕ} {t : ℤ} (h : Nearest x n t) (le : n ≤ 2 ^ 53)
    {u : UnpackedFloat} (hu : u =
      let final := shiftToTargetExponent .binary64 n t .exact
      if hn : final.1.mantissa = 0 then .zero .positive
      else .finite .positive final.1.mantissa final.2 (Nat.pos_of_ne_zero hn)) :
    RoundedTo x (Float.Model.pack u).unpack := by
  refine ⟨n, t, h, ?_⟩
  by_cases carry : n = 2 ^ 53
  · subst carry
    have double : (((2 ^ 53 : ℕ) : ℚ)) * 2 ^ t = ((2 ^ 52 : ℕ) : ℚ) * 2 ^ (t + 1) := by
      rw [zpow_add₀ (by norm_num)]
      push_cast
      ring
    simp only [shiftToTargetExponent_carry h.le_exponent] at hu
    rw [dif_neg (by norm_num)] at hu
    rw [hu, double]
    exact number?_unpack_pack (by norm_num) (by norm_num) (by linarith [h.le_exponent])
      (.inr (Nat.le_refl _))
  · simp only [shiftToTargetExponent_of_lt (by omega : n < 2 ^ 53) h.le_exponent] at hu
    by_cases hn : n = 0
    · rw [dif_pos hn] at hu
      rw [hu, unpack_pack_zero, hn]
      exact .inl (by simp [number?])
    · rw [dif_neg hn] at hu
      rw [hu]
      exact number?_unpack_pack (Nat.pos_of_ne_zero hn) (by omega) h.le_exponent h.normal_le

/-- What is shifted to the grid has at most 53 bits in front of the point. -/
theorem div_two_pow_lt {m k : ℕ} {y : ℚ} (above : y < m + 1) (short : m.log2 ≤ 52 + k) :
    y / 2 ^ k < 2 ^ 53 := by
  have size : m + 1 ≤ 2 ^ (53 + k) := calc
    m + 1 ≤ 2 ^ (m.log2 + 1) := Nat.lt_log2_self
    _ ≤ 2 ^ (53 + k) := Nat.pow_le_pow_right (by norm_num) (by omega)
  have size : (m : ℚ) + 1 ≤ 2 ^ 53 * 2 ^ k := by
    rw [← pow_add]
    exact_mod_cast size
  rw [div_lt_iff₀ (by positivity)]
  linarith

/-- What is shifted to a grid above the lowest one has 53 bits in front of the point. -/
theorem le_div_two_pow {m k : ℕ} {y : ℚ} (below : m ≤ y) (long : m.log2 = 52 + k) :
    (2 : ℚ) ^ 52 ≤ y / 2 ^ k := by
  have hm : m ≠ 0 := by
    rintro rfl
    simp at long
    omega
  have size : 2 ^ (52 + k) ≤ m := long ▸ Nat.log2_self_le hm
  have size : (2 : ℚ) ^ 52 * 2 ^ k ≤ m := by
    rw [← pow_add]
    exact_mod_cast size
  rw [le_div_iff₀ (by positivity)]
  linarith

/-- **The model rounds to the nearest number.** -/
theorem roundedTo_roundWithAccuracy {m : ℕ} {e : ℤ} {a : Accuracy} {y : ℚ}
    (hy : Describes (.ofMantissaAndAccuracy m a) y) (bits : 2 ^ 52 ≤ m ∨ e ≤ -1074) :
    RoundedTo (y * 2 ^ e) (Float.Model.pack
      (roundWithAccuracy .binary64 .positive m e a)).unpack := by
  obtain ⟨k, t, hkt, ht, short, long, shift⟩ := shiftToTargetExponent_eq (a := a) bits
  have mantissa_eq : (ExtendedMantissa.ofMantissaAndAccuracy m a).mantissa = m := by
    cases a with
    | exact => rfl
    | inexact o => cases o <;> rfl
  obtain ⟨below, above⟩ := hy.bounds
  rw [mantissa_eq] at below above
  have value : y * (2 : ℚ) ^ e = y / 2 ^ k * 2 ^ t := by
    rw [← hkt, zpow_add₀ (by norm_num), zpow_natCast]
    field_simp
  have shifted := hy.shiftRight k
  have nearest := shifted.nearest ht (long.imp_right (le_div_two_pow below))
  have le : (ExtendedMantissa.ofMantissaAndAccuracy m a >>> k).roundedMantissa ≤ 2 ^ 53 := by
    have lt := div_two_pow_lt above short
    have near := shifted.roundedMantissa.1
    have : ((ExtendedMantissa.ofMantissaAndAccuracy m a >>> k).roundedMantissa : ℚ)
        < 2 ^ 53 + 1 := by linarith
    exact Nat.lt_succ_iff.mp (by exact_mod_cast this)
  rw [value]
  refine roundedTo_carry nearest le ?_
  rw [roundWithAccuracy, shift]

/-! ## What rounding does to the order -/

/-- The numbers of binary64 that are not negative. -/
def IsNumber (x : ℚ) : Prop := ∃ m e, Canonical m e ∧ x = m * (2 : ℚ) ^ e

theorem isNumber_of_number? {f : Float.Model} {x : ℚ} (h : number? f.unpack = some x) :
    IsNumber x := by
  unfold number? at h
  split at h
  · cases h
    exact ⟨0, -1074, ⟨by norm_num, by norm_num, by norm_num, .inr rfl⟩, by simp⟩
  · rename_i hu
    cases h
    exact ⟨_, _, canonical_of_unpack hu, rfl⟩
  · cases h

theorem isNumber_two_zpow {j : ℤ} (lo : -1074 ≤ j) (hi : j ≤ 1023) : IsNumber (2 ^ j) := by
  by_cases hj : -1022 ≤ j
  · refine ⟨2 ^ 52, j - 52, ⟨by norm_num, by omega, by omega, .inl (Nat.le_refl _)⟩, ?_⟩
    have split : j = 52 + (j - 52) := by omega
    rw [split, zpow_add₀ (by norm_num)]
    norm_num
  · have small : 2 ^ (j + 1074).toNat < 2 ^ 53 := Nat.pow_lt_pow_right (by norm_num) (by omega)
    refine ⟨2 ^ (j + 1074).toNat, -1074, ⟨small, by norm_num, by norm_num, .inr rfl⟩, ?_⟩
    have split : j = ((j + 1074).toNat : ℤ) + -1074 := by omega
    conv_lhs => rw [split]
    rw [zpow_add₀ (by norm_num), zpow_natCast, Nat.cast_pow, Nat.cast_ofNat]

namespace Canonical

variable {m : ℕ} {e t : ℤ}

theorem lt_top (h : Canonical m e) : (m : ℚ) * 2 ^ e < 2 ^ (1024 : ℤ) := by
  have mantissa : (m : ℚ) < 2 ^ (53 : ℤ) := by exact_mod_cast h.mantissa_lt
  have power : (2 : ℚ) ^ e ≤ 2 ^ (971 : ℤ) := zpow_le_zpow_right₀ (by norm_num) h.exponent_le
  calc (m : ℚ) * 2 ^ e ≤ m * 2 ^ (971 : ℤ) := mul_le_mul_of_nonneg_left power m.cast_nonneg
    _ < 2 ^ (53 : ℤ) * 2 ^ (971 : ℤ) :=
      mul_lt_mul_of_pos_right mantissa (zpow_pos (by norm_num) _)
    _ = 2 ^ (1024 : ℤ) := (zpow_add₀ two_ne_zero 53 971).symm

/-- On a grid that is not coarser, a number is a multiple. -/
theorem eq_multiple (h : t ≤ e) : (m : ℚ) * 2 ^ e = ((m * 2 ^ (e - t).toNat : ℕ) : ℚ) * 2 ^ t := by
  have split : e = ((e - t).toNat : ℤ) + t := by omega
  conv_lhs => rw [split]
  rw [zpow_add₀ (by norm_num), zpow_natCast]
  push_cast
  ring

/-- A number is below what a coarser grid is for. -/
theorem lt_coarser (h : Canonical m e) (ht : e < t) : (m : ℚ) * 2 ^ e < 2 ^ 52 * 2 ^ t := by
  have mantissa : (m : ℚ) < 2 ^ 52 * 2 := by exact_mod_cast h.mantissa_lt
  have power : (2 : ℚ) ^ (e + 1) ≤ 2 ^ t := zpow_le_zpow_right₀ (by norm_num) ht
  rw [zpow_add₀ (by norm_num), zpow_one] at power
  calc (m : ℚ) * 2 ^ e < 2 ^ 52 * 2 * 2 ^ e := by gcongr
    _ = 2 ^ 52 * (2 ^ e * 2) := by ring
    _ ≤ 2 ^ 52 * 2 ^ t := by gcongr

end Canonical

namespace RoundedTo

variable {x a r : ℚ} {u : UnpackedFloat}

/-- **Rounding does not pass a number below.** -/
theorem ge (h : RoundedTo x u) (ha : IsNumber a) (hx : a ≤ x) (hr : number? u = some r) :
    a ≤ r := by
  obtain ⟨n, t, nearest, value | ⟨rfl, -⟩⟩ := h
  · obtain ⟨m, e, canonical, rfl⟩ := ha
    cases hr.symm.trans value
    by_cases ht : t ≤ e
    · rw [Canonical.eq_multiple ht] at hx ⊢
      have le : ((m * 2 ^ (e - t).toNat : ℕ) : ℚ) ≤ n := by exact_mod_cast nearest.le_of_le hx
      gcongr
    · -- the result has 53 bits on a coarser grid than the number is on
      have normal : (2 : ℚ) ^ 52 ≤ n := by
        exact_mod_cast nearest.normal_le.resolve_left (by have := canonical.le_exponent; omega)
      calc (m : ℚ) * 2 ^ e ≤ 2 ^ 52 * 2 ^ t := (canonical.lt_coarser (by omega)).le
        _ ≤ n * 2 ^ t := by gcongr
  · cases hr

/-- **Rounding does not pass a number above**, and the result is finite. -/
theorem le (h : RoundedTo x u) (ha : IsNumber a) (hx : x ≤ a) :
    ∃ r, number? u = some r ∧ r ≤ a := by
  obtain ⟨n, t, nearest, hu⟩ := h
  obtain ⟨m, e, canonical, rfl⟩ := ha
  have result : (n : ℚ) * 2 ^ t ≤ m * 2 ^ e := by
    by_cases ht : t ≤ e
    · rw [Canonical.eq_multiple ht] at hx ⊢
      have le : (n : ℚ) ≤ ((m * 2 ^ (e - t).toNat : ℕ) : ℚ) := by
        exact_mod_cast nearest.ge_of_ge hx
      gcongr
    · have normal := nearest.normal.resolve_left (by have := canonical.le_exponent; omega)
      linarith [canonical.lt_coarser (t := t) (by omega)]
  rcases hu with hu | ⟨-, top⟩
  · exact ⟨_, hu, result⟩
  · exact absurd canonical.lt_top (not_lt.mpr (top.trans result))

theorem le_two_mul (h : RoundedTo x u) (hx : 0 ≤ x) (hr : number? u = some r) : r ≤ 2 * x := by
  obtain ⟨n, t, nearest, value | ⟨rfl, -⟩⟩ := h
  · cases hr.symm.trans value
    exact nearest.le_two_mul hx
  · cases hr

theorem le_two_mul' (h : RoundedTo x u) (hx : (2 : ℚ) ^ (-1074 : ℤ) ≤ x)
    (hr : number? u = some r) : x ≤ 2 * r := by
  obtain ⟨n, t, nearest, value | ⟨rfl, -⟩⟩ := h
  · cases hr.symm.trans value
    exact nearest.le_two_mul' hx
  · cases hr

/-- What is rounded to a small number is small. -/
theorem le_two_zpow (h : RoundedTo x u) {k : ℤ} (lo : 0 ≤ k) (hr : number? u = some r)
    (le : r ≤ 2 ^ k) : x ≤ 2 ^ (k + 1) := by
  rw [zpow_add_one₀ two_ne_zero]
  by_cases hx : (2 : ℚ) ^ (-1074 : ℤ) ≤ x
  · linarith [h.le_two_mul' hx hr]
  · have least : (2 : ℚ) ^ (-1074 : ℤ) ≤ 2 ^ k := zpow_le_zpow_right₀ one_le_two (by omega)
    linarith [zpow_pos (zero_lt_two (α := ℚ)) k]

end RoundedTo

end SeriesParallel.Binary64
