import SeriesParallel.Proofs.Binary64.Rounding

/-!
# Binary64 — arithmetic on numbers that are not negative

The sum, the product and the quotient of unpacked values that stand for
rationals are those of the rationals, rounded. Infinity absorbs a sum and
makes a quotient zero, and the comparisons with zero are those of the rationals.
-/

namespace SeriesParallel.Binary64

open Float.Model Float.Model.UnpackedFloat

/-! ## Rounding steps -/

theorem roundedTo_zero (s : Sign) : RoundedTo 0 (Float.Model.pack (.zero s)).unpack := by
  refine ⟨0, -1074, ⟨Int.le_refl _, .inl rfl, ?_, ?_⟩, .inl ?_⟩
  · simp only [Nat.cast_zero, zero_mul, zero_add]
    positivity
  · simp only [Nat.cast_zero, zero_mul, zero_add]
    positivity
  · rw [unpack_pack_zero, number?, Nat.cast_zero, zero_mul]

/-- A number is rounded to itself. -/
theorem roundedTo_canonical {m : ℕ} {e : ℤ} (hm : 0 < m) (h : Canonical m e) :
    RoundedTo (m * 2 ^ e) (Float.Model.pack (.finite .positive m e hm)).unpack := by
  have step : (0 : ℚ) < 2 ^ e := by positivity
  refine ⟨m, e, ⟨h.le_exponent, ?_, by linarith, by linarith⟩, .inl ?_⟩
  · refine h.normal.symm.imp_right fun normal => ?_
    have normal : (2 : ℚ) ^ 52 ≤ m := by exact_mod_cast normal
    gcongr
  · rw [unpack_pack_of_canonical hm h]
    rfl

theorem describes_exact (m : ℕ) : Describes (.ofMantissaAndAccuracy m .exact) m := rfl

/-- A mantissa that is shifted far enough has enough bits. -/
theorem two_pow_le_shiftLeft {m k s : ℕ} (hm : 0 < m) (h : k ≤ m.log2 + s) : 2 ^ k ≤ m <<< s := by
  rw [Nat.shiftLeft_eq]
  calc 2 ^ k ≤ 2 ^ (m.log2 + s) := Nat.pow_le_pow_right (by norm_num) h
    _ = 2 ^ m.log2 * 2 ^ s := pow_add 2 _ _
    _ ≤ m * 2 ^ s := Nat.mul_le_mul_right _ (Nat.log2_self_le hm.ne')

/-- A mantissa and an exponent are rounded as the number that they make. -/
theorem roundedTo_round {m : ℕ} {e : ℤ} (hm : 0 < m) :
    RoundedTo (m * 2 ^ e) (Float.Model.pack
      (UnpackedFloat.round .binary64 .positive m e)).unpack := by
  rw [UnpackedFloat.round, targetExponent_eq]
  simp only [decreaseExponent]
  generalize hs : (e - max ((m.log2 : ℤ) + e - 52) (-1074)).toNat = s
  have value : (m : ℚ) * 2 ^ e = ((m <<< s : ℕ) : ℚ) * 2 ^ (e - s : ℤ) := by
    rw [Nat.shiftLeft_eq, Canonical.eq_multiple (by omega : e - s ≤ e)]
    congr
    omega
  have bits : 2 ^ 52 ≤ m <<< s ∨ e - s ≤ -1074 := by
    by_cases hlow : e - s ≤ -1074
    · exact .inr hlow
    · exact .inl (two_pow_le_shiftLeft hm (by omega))
  rw [value]
  exact roundedTo_roundWithAccuracy (describes_exact _) bits

/-! ## Operations on unpacked values -/

/-- An unpacked value stands for a number. -/
inductive Stands : UnpackedFloat → ℚ → Prop
  | zero (s : Sign) : Stands (.zero s) 0
  | finite {m : ℕ} {e : ℤ} (hm : 0 < m) : Canonical m e →
    Stands (.finite .positive m e hm) (m * 2 ^ e)

theorem stands_of_number? {f : Float.Model} {x : ℚ} (h : number? f.unpack = some x) :
    Stands f.unpack x := by
  generalize hu : f.unpack = u at h
  unfold number? at h
  split at h
  · cases h
    exact .zero _
  · cases h
    exact .finite _ (canonical_of_unpack hu)
  · cases h

theorem normalize_of_pos {m : ℕ} (hm : 0 < m) (e : ℤ) (s : Sign) :
    UnpackedFloat.normalize .binary64 m e s = UnpackedFloat.round .binary64 .positive m e := by
  have order : compare (m : ℤ) 0 = .gt := Int.compare_eq_gt.mpr (by omega)
  rw [UnpackedFloat.normalize, order]
  rfl

namespace Stands

variable {u v : UnpackedFloat} {x y : ℚ}

theorem add (hu : Stands u x) (hv : Stands v y) :
    RoundedTo (x + y) (Float.Model.pack (UnpackedFloat.add .binary64 u v)).unpack := by
  cases hu with
  | zero s =>
    rw [zero_add]
    cases hv with
    | zero s' =>
      simp only [UnpackedFloat.add]
      split <;> exact roundedTo_zero _
    | finite hm canonical => exact roundedTo_canonical hm canonical
  | @finite m e hm canonical =>
    cases hv with
    | zero s =>
      rw [add_zero]
      exact roundedTo_canonical hm canonical
    | @finite m' e' hm' canonical' =>
      simp only [UnpackedFloat.add, decreaseExponent, Sign.apply]
      generalize hlow : min e e' = low
      have value : (m : ℚ) * 2 ^ e + m' * 2 ^ e' =
          ((m <<< (e - low).toNat + m' <<< (e' - low).toNat : ℕ) : ℚ) * 2 ^ low := by
        rw [Canonical.eq_multiple (by omega : low ≤ e), Canonical.eq_multiple (by omega : low ≤ e'),
          ← add_mul, ← Nat.cast_add, Nat.shiftLeft_eq, Nat.shiftLeft_eq]
      have pos : 0 < m <<< (e - low).toNat + m' <<< (e' - low).toNat := by
        rw [Nat.shiftLeft_eq]
        exact Nat.add_pos_left (Nat.mul_pos hm (Nat.two_pow_pos _)) _
      rw [value, ← Nat.cast_add, normalize_of_pos pos]
      exact roundedTo_round pos

theorem mul (hu : Stands u x) (hv : Stands v y) :
    RoundedTo (x * y) (Float.Model.pack (UnpackedFloat.mul .binary64 u v)).unpack := by
  cases hu with
  | zero s =>
    rw [zero_mul]
    cases hv <;> exact roundedTo_zero _
  | @finite m e hm canonical =>
    cases hv with
    | zero s =>
      rw [mul_zero]
      exact roundedTo_zero _
    | @finite m' e' hm' canonical' =>
      have value : (m : ℚ) * 2 ^ e * (m' * 2 ^ e') = ((m * m' : ℕ) : ℚ) * 2 ^ (e + e') := by
        rw [zpow_add₀ two_ne_zero]
        push_cast
        ring
      have bits : 2 ^ 52 ≤ m * m' ∨ e + e' ≤ -1074 := by
        rcases canonical.normal with normal | low
        · exact .inl (normal.trans (Nat.le_mul_of_pos_right m hm'))
        · rcases canonical'.normal with normal | low'
          · exact .inl (normal.trans (Nat.le_mul_of_pos_left m' hm))
          · exact .inr (by omega)
      rw [value]
      exact roundedTo_roundWithAccuracy (describes_exact _) bits

end Stands

/-- The remainder of a division tells where the quotient lies. -/
theorem describes_quotient (m : ℕ) {d : ℕ} (hd : 0 < d) :
    Describes (.ofMantissaAndAccuracy (m / d) (accuracyOfFraction (m % d) d)) ((m : ℚ) / d) := by
  have positive : (0 : ℚ) < d := by exact_mod_cast hd
  have quotient : (m : ℚ) / d = (m / d : ℕ) + (m % d : ℕ) / d := by
    have := Nat.div_add_mod m d
    have whole : (d : ℚ) * (m / d : ℕ) + (m % d : ℕ) = m := by exact_mod_cast this
    field_simp
    linarith
  have below : m % d < d := Nat.mod_lt m hd
  rw [quotient]
  generalize m / d = q
  generalize m % d = r at below
  have below : (r : ℚ) < d := by exact_mod_cast below
  unfold accuracyOfFraction
  split
  · rename_i hr
    simp [hr, Describes, ExtendedMantissa.ofMantissaAndAccuracy]
  · rename_i hr
    have fraction_pos : (0 : ℚ) < r / d := by
      have : (0 : ℚ) < r := by exact_mod_cast Nat.pos_of_ne_zero hr
      positivity
    have fraction_lt : (r : ℚ) / d < 1 := (div_lt_one positive).mpr below
    cases hcompare : compare (2 * r) d with
    | lt =>
      have half : (2 : ℚ) * r < d := by exact_mod_cast Nat.compare_eq_lt.mp hcompare
      have half : (r : ℚ) / d < 1 / 2 := by
        rw [div_lt_iff₀ positive]
        linarith
      show (q : ℚ) < q + r / d ∧ q + (r : ℚ) / d < q + 1 / 2
      constructor <;> linarith
    | eq =>
      have half : (2 : ℚ) * r = d := by exact_mod_cast Nat.compare_eq_eq.mp hcompare
      have half : (r : ℚ) / d = 1 / 2 := by
        rw [div_eq_iff positive.ne']
        linarith
      show (q : ℚ) + r / d = q + 1 / 2
      rw [half]
    | gt =>
      have half : (d : ℚ) < 2 * r := by exact_mod_cast Nat.compare_eq_gt.mp hcompare
      have half : (1 : ℚ) / 2 < r / d := by
        rw [lt_div_iff₀ positive]
        linarith
      show (q : ℚ) + 1 / 2 < q + r / d ∧ q + (r : ℚ) / d < q + 1
      constructor <;> linarith

namespace Stands

variable {u v : UnpackedFloat} {x y : ℚ}

theorem div (hu : Stands u x) (hv : Stands v y) (hy : 0 < y) :
    RoundedTo (x / y) (Float.Model.pack (UnpackedFloat.div .binary64 u v)).unpack := by
  cases hv with
  | zero s => exact absurd hy (lt_irrefl 0)
  | @finite m' e' hm' canonical' =>
    cases hu with
    | zero s =>
      rw [zero_div]
      exact roundedTo_zero _
    | @finite m e hm canonical =>
      simp only [UnpackedFloat.div, divCore, targetExponent_eq_max, totalExponent]
      generalize hlow : min (e - e') (max ((m.log2 : ℤ) + 1 + e - (m'.log2 + 1 + e') - 53) (-1074))
        = low
      generalize hshift : (e - e' - low).toNat = s
      have value : (m : ℚ) * 2 ^ e / (m' * 2 ^ e') = ((m <<< s : ℕ) : ℚ) / m' * 2 ^ low := by
        have split : e = s + low + e' := by omega
        rw [Nat.shiftLeft_eq, split, zpow_add₀ two_ne_zero, zpow_add₀ two_ne_zero, zpow_natCast]
        push_cast
        field_simp
      have bits : 2 ^ 52 ≤ m <<< s / m' ∨ low ≤ -1074 := by
        by_cases hbottom : low ≤ -1074
        · exact .inr hbottom
        · refine .inl ((Nat.le_div_iff_mul_le hm').mpr ?_)
          calc 2 ^ 52 * m' ≤ 2 ^ 52 * 2 ^ (m'.log2 + 1) :=
                Nat.mul_le_mul_left _ Nat.lt_log2_self.le
            _ = 2 ^ (52 + (m'.log2 + 1)) := (pow_add 2 _ _).symm
            _ ≤ m <<< s := two_pow_le_shiftLeft hm (by omega)
      rw [value]
      exact roundedTo_roundWithAccuracy (describes_quotient _ hm') bits

/-! ### Infinity, and comparisons with zero -/

theorem add_infinity (hu : Stands u x) :
    UnpackedFloat.add .binary64 u (.infinity .positive) = .infinity .positive ∧
      UnpackedFloat.add .binary64 (.infinity .positive) u = .infinity .positive := by
  cases hu <;> exact ⟨rfl, rfl⟩

theorem div_infinity (hu : Stands u x) :
    ∃ s, UnpackedFloat.div .binary64 u (.infinity .positive) = .zero s := by
  cases hu <;> exact ⟨_, rfl⟩

theorem isFinite (hu : Stands u x) : u.isFinite := by
  cases hu <;> rfl

theorem zero_lt_iff (hu : Stands u x) :
    UnpackedFloat.compare (.zero .positive) u = some .lt ↔ 0 < x := by
  cases hu with
  | zero s => simp [UnpackedFloat.compare]
  | finite hm canonical =>
    refine ⟨fun _ => ?_, fun _ => rfl⟩
    positivity

theorem not_lt_zero (hu : Stands u x) : ¬u.compare (.zero .positive) = some .lt := by
  cases hu <;> simp [UnpackedFloat.compare]

theorem pos_of_ne_zero (hu : Stands u x) (h : ¬u.compare (.zero .positive) = some .eq) :
    0 < x := by
  cases hu with
  | zero s => exact absurd rfl h
  | finite hm canonical => positivity

end Stands

end SeriesParallel.Binary64
