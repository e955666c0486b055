import SeriesParallel.Report
import SeriesParallel.Proofs.Binary64.Parts
import SeriesParallel.Proofs.Decimal.Positional

/-!
# Decimal — amounts are canonical

A float with a fixed number of places is the numeral of its exact value,
rounded. An amount is that numeral made canonical, so that two amounts are one
text exactly when they are one number, whatever their precisions are.
-/

namespace SeriesParallel.Decimal

/-! ## Rounding a rational -/

/-- `n` is the whole number nearest to `r`, of two equally near the even one. -/
structure IsNearest (r : ℚ) (n : ℤ) : Prop where
  near : |r - n| ≤ 1 / 2
  even_of_half : |r - n| = 1 / 2 → Even n

/-- The whole number nearest to `r`, of two equally near the even one. -/
def nearestEven (r : ℚ) : ℤ :=
  if r - ⌊r⌋ < 1 / 2 then ⌊r⌋ else if 1 / 2 < r - ⌊r⌋ then ⌊r⌋ + 1 else ⌊r⌋ + ⌊r⌋ % 2

theorem isNearest_nearestEven (r : ℚ) : IsNearest r (nearestEven r) := by
  have low : 0 ≤ r - ⌊r⌋ := sub_nonneg.mpr (Int.floor_le r)
  have high : r - ⌊r⌋ < 1 := by linarith [Int.lt_floor_add_one r]
  unfold nearestEven
  generalize ⌊r⌋ = n at low high
  split_ifs with below above
  · have distance : |r - n| = r - n := abs_of_nonneg low
    exact ⟨by linarith, fun half => by linarith⟩
  · have distance : |r - ((n + 1 : ℤ) : ℚ)| = 1 - (r - n) := by
      push_cast
      rw [abs_of_nonpos (by linarith)]
      ring
    exact ⟨by linarith, fun half => by linarith⟩
  · have half : r - n = 1 / 2 := le_antisymm (not_lt.mp above) (not_lt.mp below)
    rcases Int.emod_two_eq_zero_or_one n with even | odd
    · rw [even, add_zero]
      exact ⟨by rw [half]; norm_num, fun _ => Int.even_iff.mpr even⟩
    · rw [odd]
      have distance : |r - ((n + 1 : ℤ) : ℚ)| = 1 / 2 := by
        push_cast
        rw [show r - (n + 1) = -(1 / 2) by linarith]
        norm_num
      exact ⟨distance.le, fun _ => Int.even_iff.mpr (by omega)⟩

namespace IsNearest

variable {r : ℚ} {n k : ℤ}

/-- Only neighbours can both be nearest, and one of two neighbours is odd. -/
theorem le (hn : IsNearest r n) (hk : IsNearest r k) : n ≤ k := by
  by_contra above
  have step : (k : ℚ) + 1 ≤ n := by exact_mod_cast not_le.mp above
  have upper := (abs_le.mp hn.near).1
  have lower := (abs_le.mp hk.near).2
  have half_n : |r - n| = 1 / 2 := by
    rw [show r - n = -(1 / 2) by linarith]
    norm_num
  have half_k : |r - k| = 1 / 2 := by
    rw [show r - k = 1 / 2 by linarith]
    norm_num
  have next : n = k + 1 := by
    have : (n : ℚ) = k + 1 := by linarith
    exact_mod_cast this
  have even_n := Int.even_iff.mp (hn.even_of_half half_n)
  have even_k := Int.even_iff.mp (hk.even_of_half half_k)
  omega

theorem unique (hn : IsNearest r n) (hk : IsNearest r k) : n = k := (hn.le hk).antisymm (hk.le hn)

theorem neg (h : IsNearest r n) : IsNearest (-r) (-n) := by
  have same : |(-r) - ((-n : ℤ) : ℚ)| = |r - n| := by
    push_cast
    rw [← abs_neg]
    ring_nf
  exact ⟨same ▸ h.near, fun half => (h.even_of_half (same ▸ half)).neg⟩

end IsNearest

theorem nearestEven_neg (r : ℚ) : nearestEven (-r) = -nearestEven r :=
  (isNearest_nearestEven (-r)).unique (isNearest_nearestEven r).neg

/-- The rounded quotient is the nearest number to the exact one. -/
theorem isNearest_roundHalfEven (num : ℕ) {den : ℕ} (hden : 0 < den) :
    IsNearest ((num : ℚ) / den) (roundHalfEven num den) := by
  have positive : (0 : ℚ) < den := by exact_mod_cast hden
  have floor : ⌊(num : ℚ) / den⌋ = ((num / den : ℕ) : ℤ) := Rat.floor_natCast_div_natCast num den
  have rest : (num : ℚ) / den - (num / den : ℕ) = (num % den : ℕ) / den := by
    have whole : (den : ℚ) * (num / den : ℕ) + (num % den : ℕ) = num := by
      exact_mod_cast Nat.div_add_mod num den
    field_simp
    linarith
  have same : nearestEven ((num : ℚ) / den) = roundHalfEven num den := by
    have below : (num % den : ℕ) / (den : ℚ) < 1 / 2 ↔ 2 * (num % den) < den := by
      rw [div_lt_iff₀ positive, ← Nat.cast_lt (α := ℚ)]
      push_cast
      constructor <;> intro h <;> linarith
    have above : 1 / 2 < (num % den : ℕ) / (den : ℚ) ↔ den < 2 * (num % den) := by
      rw [lt_div_iff₀ positive, ← Nat.cast_lt (α := ℚ)]
      push_cast
      constructor <;> intro h <;> linarith
    rw [nearestEven, floor, Int.cast_natCast, rest, roundHalfEven]
    simp only [below, above]
    split_ifs <;> push_cast <;> rfl
  rw [← same]
  exact isNearest_nearestEven _

/-- A rational rounded to a number of decimals. -/
def roundTo (places : ℕ) (r : ℚ) : ℚ := nearestEven (r * 10 ^ places) / 10 ^ places

theorem roundTo_neg (places : ℕ) (r : ℚ) : roundTo places (-r) = -roundTo places r := by
  rw [roundTo, neg_mul, nearestEven_neg, Int.cast_neg, neg_div, roundTo]

/-! ## Floats of a fixed number of places -/

/-- The exact value of a finite float. -/
def exactValue (x : Float) : ℚ :=
  match Binary64.ofFloat x with
  | .finite negative m q => if negative then -(m * 2 ^ q) else m * 2 ^ q
  | _ => 0

/-- **The scaled mantissa is the value in units of `10 ^ -places`, rounded.** -/
theorem scaled_eq (m : ℕ) (q : ℤ) (places : ℕ) :
    ((scaled m q places : ℕ) : ℤ) = nearestEven (m * 2 ^ q * 10 ^ places) := by
  refine IsNearest.unique ?_ (isNearest_nearestEven _)
  have value : (m : ℚ) * 2 ^ q * 10 ^ places =
      ((m * 2 ^ q.toNat * 10 ^ places : ℕ) : ℚ) / ((2 ^ (-q).toNat : ℕ) : ℚ) := by
    rw [zpow_eq_div two_ne_zero]
    push_cast
    ring
  rw [value]
  exact isNearest_roundHalfEven _ (by positivity)

/-- The numeral of a finite float with a fixed number of places. -/
theorem exists_fixed {x : Float} (h : x.isFinite) (places : ℕ) :
    ∃ n : Positional, fixed x places = n.text ∧ n.decimals.length = places ∧
      n.value = roundTo places (exactValue x) := by
  obtain ⟨negative, m, q, parts⟩ := SeriesParallel.Binary64.exists_finite h
  refine ⟨.scaled negative (scaled m q places) places, ?_,
    Positional.length_decimals_scaled _ _ _, ?_⟩
  · rw [Positional.text_scaled, fixed, parts]
  · have magnitude : ((scaled m q places : ℕ) : ℚ) / 10 ^ places = roundTo places (m * 2 ^ q) := by
      rw [roundTo, ← scaled_eq, Int.cast_natCast]
    rw [exactValue, parts, Positional.value, Positional.magnitude_scaled, magnitude]
    cases negative with
    | true => exact (roundTo_neg places _).symm
    | false => rfl

/-! ## Amounts -/

theorem dropEnd_append_of_neg {p : Char → Bool} {cs : List Char} (ne : cs ≠ [])
    (h : ∀ c ∈ cs, p c = false) (front : List Char) : Text.dropEnd p (front ++ cs) = front ++ cs := by
  obtain ⟨ds, c, rfl⟩ := (List.eq_nil_or_concat' cs).resolve_left ne
  have stop : p c = false := h c (by simp)
  rw [← List.append_assoc, Text.dropEnd_append_cons stop]
  rfl

theorem dropEnd_concat_of_pos {p : Char → Bool} {c : Char} (h : p c) (cs : List Char) :
    Text.dropEnd p (cs ++ [c]) = Text.dropEnd p cs := by
  simp [Text.dropEnd, h]

theorem ne_point_of_isDigit {c : Char} (h : isDigit c) : decide (c = '.') = false := by
  rw [decide_eq_false_iff_not]
  rintro rfl
  exact absurd h (by decide)

/-- The zeros that are dropped are those behind the point, and the point goes
with the last decimal. -/
theorem trimDecimals_text (n : Positional) : trimDecimals n.text = n.dropZeros.text := by
  have no_point : '.' ∉ sign n.negative ++ n.whole := by
    rw [List.mem_append, not_or]
    refine ⟨fun h => ?_, fun h => absurd (n.whole_digits _ h) (by decide)⟩
    exact absurd (eq_of_mem_sign h) (by decide)
  have whole_kept := dropEnd_append_of_neg n.leads.1
    (fun c hc => ne_point_of_isDigit (n.whole_digits c hc)) (sign n.negative)
  show trimDecimals (sign n.negative ++ (n.whole ++ point n.decimals)) =
    sign n.negative ++ (n.whole ++ point n.dropZeros.decimals)
  rw [← List.append_assoc, ← List.append_assoc]
  generalize sign n.negative ++ n.whole = front at no_point whole_kept
  by_cases none : n.decimals = []
  · have nothing : n.dropZeros.decimals = [] := by rw [n.dropZeros_decimals, none]; rfl
    rw [none, nothing, point, if_pos rfl, List.append_nil, trimDecimals, if_neg]
    rwa [List.contains_iff_mem]
  · have dropped : Text.dropEnd (· = '0') (front ++ '.' :: n.decimals) =
        front ++ '.' :: n.dropZeros.decimals :=
      Text.dropEnd_append_cons (by decide) front n.decimals
    rw [point, if_neg none, trimDecimals, if_pos (by simp), dropped]
    by_cases nothing : n.dropZeros.decimals = []
    · rw [nothing, dropEnd_concat_of_pos (by decide), whole_kept, point, if_pos rfl, List.append_nil]
    · have kept := dropEnd_append_of_neg nothing
        (fun c hc => ne_point_of_isDigit (n.dropZeros.decimals_digits c hc)) (front ++ ['.'])
      rw [point, if_neg nothing]
      simpa using kept

/-- Without zeros at the end, `-0` is the text of zero with a sign. -/
theorem text_eq_negative_zero_iff {n : Positional} (last : n.decimals.getLast? ≠ some '0') :
    n.text = ['-', '0'] ↔ n.negative = true ∧ n.digits = 0 := by
  have negative_zero : (Positional.scaled true 0 0).text = ['-', '0'] := by
    rw [Positional.text_scaled]
    rfl
  rw [Positional.digits_eq_zero_iff last, ← negative_zero]
  constructor
  · intro h
    rw [Positional.text_inj h]
    exact ⟨rfl, rfl, rfl⟩
  · rintro ⟨negative, whole, decimals⟩
    rw [show n = .scaled true 0 0 from Positional.ext negative whole decimals]

/-- **An amount is the numeral of the places, made canonical.** -/
theorem amount_eq_trim {x : Float} {places : ℕ} {n : Positional} (h : fixed x places = n.text) :
    amount x places = String.ofList n.trim.text := by
  rw [amount, h, trimDecimals_text]
  simp only [text_eq_negative_zero_iff n.getLast?_dropZeros]
  split
  · rename_i zero
    obtain ⟨whole, decimals⟩ := (Positional.digits_eq_zero_iff n.getLast?_dropZeros).mp zero.2
    have bare : n.trim = .scaled false 0 0 := by
      refine Positional.ext ?_ whole decimals
      show (n.dropZeros.negative && n.dropZeros.digits != 0) = false
      simp [zero.2]
    rw [bare, Positional.text_scaled]
    rfl
  · rename_i other
    have kept : n.trim = n.dropZeros := by
      refine Positional.ext ?_ rfl rfl
      rw [not_and] at other
      show (n.dropZeros.negative && n.dropZeros.digits != 0) = n.dropZeros.negative
      cases hneg : n.dropZeros.negative with
      | false => rfl
      | true => simpa using other hneg
    rw [kept]

/-- **Amounts are canonical decimals.** Of a finite float with a fixed number of
places, an amount keeps the digits in front of the point, drops the zeros at the
end of the decimals and the sign of zero, and denotes the same number: that of
the float, rounded. Two amounts of whatever precisions are the same text exactly
when the rounded numbers are the same. -/
theorem amount_canonical (x y : Float) (hx : x.isFinite) (hy : y.isFinite) (p q : ℕ) :
    (∃ n k : Positional, fixed x p = n.text ∧ n.decimals.length = p ∧
      (amount x p).toList = k.text ∧ k.whole = n.whole ∧ k.decimals.length ≤ p ∧
      k.decimals.getLast? ≠ some '0' ∧ (k.value = 0 → k.negative = false) ∧
      number? (fixed x p) = some (roundTo p (exactValue x)) ∧
      number? (amount x p).toList = some (roundTo p (exactValue x))) ∧
    (amount x p = amount y q ↔ roundTo p (exactValue x) = roundTo q (exactValue y)) := by
  obtain ⟨n, hn, places, value⟩ := exists_fixed hx p
  obtain ⟨m, hm, -, value'⟩ := exists_fixed hy q
  have amount_x := amount_eq_trim hn
  have amount_y := amount_eq_trim hm
  have text : (amount x p).toList = n.trim.text := by rw [amount_x, String.toList_ofList]
  refine ⟨⟨n, n.trim, hn, places, text, rfl, ?_, n.isCanonical_trim.last_ne_zero,
    n.isCanonical_trim.zero_not_negative, ?_, ?_⟩, ?_⟩
  · exact places ▸ n.length_decimals_dropZeros_le
  · rw [hn, n.number?_text, value]
  · rw [text, n.trim.number?_text, n.value_trim, value]
  · rw [amount_x, amount_y, String.ofList_inj, ← value, ← value']
    constructor
    · intro same
      have read : some n.trim.value = some m.trim.value := by
        rw [← n.trim.number?_text, ← m.trim.number?_text, same]
      rw [← n.value_trim, ← m.value_trim]
      exact Option.some.inj read
    · intro same
      rw [Positional.eq_of_value_eq n.isCanonical_trim m.isCanonical_trim
        (by rw [n.value_trim, m.value_trim, same])]

/-- A thousandth below zero, to two places, is nothing to five places. -/
theorem amount_below_zero : (-0.001 : Float).isFinite ∧ (0.0 : Float).isFinite ∧
    amount (-0.001) 2 = amount 0.0 5 := by
  have below : (-0.001 : Float).isFinite := by decide +kernel
  have zero : (0.0 : Float).isFinite := by decide +kernel
  exact ⟨below, zero, (amount_canonical _ _ below zero 2 5).2.mpr (by decide +kernel)⟩

end SeriesParallel.Decimal
