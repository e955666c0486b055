import SeriesParallel.Decimal.Shortest
import SeriesParallel.Proofs.Binary64.Parts
import SeriesParallel.Proofs.Decimal.Positional

/-!
# Decimal — shortest digits tell floats apart

The search for the fewest digits ends in the interval of the value that it
starts from: the interval is wider than a step of seventeen digits. Intervals of
different values share no number, not even an end, as an end belongs to the
value with the even mantissa. Hence no two floats that are defined have one text.
-/

namespace SeriesParallel.Decimal

/-! ## Digits -/

/-- The number of digits and a power of ten. -/
def Digits.value (d : Digits) : ℚ := d.digits * 10 ^ d.exponent

theorem Digits.value_trim (d : Digits) : d.trim.value = d.value := by
  fun_induction Digits.trim d with
  | case1 d h ih =>
    have tenfold : (d.digits : ℚ) = (d.digits / 10 : ℕ) * 10 := by
      exact_mod_cast (Nat.div_mul_cancel (Nat.dvd_of_mod_eq_zero h.2)).symm
    rw [ih, value, value, tenfold, zpow_add_one₀ (by norm_num)]
    ring
  | case2 d h => rfl

theorem lt_pow_digitCount (n : ℕ) : n < 10 ^ digitCount n := by
  fun_induction digitCount n with
  | case1 => exact Nat.one_pos
  | case2 n h ih =>
    rw [pow_succ]
    omega

theorem pow_digitCount_le {n : ℕ} (hn : 0 < n) : 10 ^ digitCount n ≤ n * 10 := by
  fun_induction digitCount n with
  | case1 => exact absurd hn (lt_irrefl 0)
  | case2 n h ih =>
    rw [pow_succ]
    by_cases small : n / 10 = 0
    · rw [small, digitCount, if_pos rfl]
      omega
    · have := ih (Nat.pos_of_ne_zero small)
      omega

/-- The power of the leading digit is not above the number. -/
theorem zpow_leadingExponent_le {num den : ℕ} (hnum : 0 < num) (hden : 0 < den) :
    (10 : ℚ) ^ leadingExponent num den ≤ num / den := by
  have positive : (0 : ℚ) < den := by exact_mod_cast hden
  unfold leadingExponent
  rw [le_div_iff₀ positive]
  split
  · rename_i le
    have size := pow_digitCount_le (Nat.div_pos le hden)
    have size : 10 ^ digitCount (num / den) * den ≤ num * 10 := calc
      10 ^ digitCount (num / den) * den ≤ num / den * 10 * den := Nat.mul_le_mul_right _ size
      _ = num / den * den * 10 := by ring
      _ ≤ num * 10 := Nat.mul_le_mul_right _ (Nat.div_mul_le_self num den)
    have size : (10 : ℚ) ^ digitCount (num / den) * den ≤ num * 10 := by exact_mod_cast size
    rw [zpow_sub_one₀ (by norm_num), zpow_natCast]
    linarith
  · have size := (Nat.div_lt_iff_lt_mul hnum).mp (lt_pow_digitCount (den / num))
    have size : (den : ℚ) ≤ 10 ^ digitCount (den / num) * num := by exact_mod_cast size.le
    rw [zpow_neg, zpow_natCast, inv_mul_le_iff₀ (by positivity)]
    exact size

/-! ## The search -/

namespace Interval

/-- The lower end of an interval. -/
def lower (i : Interval) : ℚ := i.low / i.denominator

/-- The value that an interval is around. -/
def middle (i : Interval) : ℚ := i.value / i.denominator

/-- The upper end of an interval. -/
def upper (i : Interval) : ℚ := i.high / i.denominator

/-- The interval holds a number. The ends are in it when the interval is closed. -/
@[mk_iff]
structure Holds (i : Interval) (r : ℚ) : Prop where
  lower_le : i.lower ≤ r
  le_upper : r ≤ i.upper
  inside : i.closed = false → i.lower < r ∧ r < i.upper

theorem contains_iff {i : Interval} (hden : 0 < i.denominator) (n : ℕ) :
    i.contains n ↔ i.Holds n := by
  have positive : (0 : ℚ) < i.denominator := by exact_mod_cast hden
  rw [holds_iff, lower, upper, div_le_iff₀ positive, le_div_iff₀ positive, div_lt_iff₀ positive,
    lt_div_iff₀ positive]
  norm_cast
  cases hclosed : i.closed with
  | true =>
    rw [contains, if_pos hclosed, decide_eq_true_eq]
    exact ⟨fun h => ⟨h.1, h.2, nofun⟩, fun h => ⟨h.1, h.2.1⟩⟩
  | false =>
    rw [contains, if_neg (by simp [hclosed]), decide_eq_true_eq]
    exact ⟨fun h => ⟨h.1.le, h.2.le, fun _ => h⟩, fun h => h.2.2 rfl⟩

/-! ### Units -/

/-- A fraction of an interval in units of a power of ten. -/
theorem cast_inUnits_div (i : Interval) (g : ℤ) (x : ℕ) :
    ((x * 10 ^ (-g).toNat : ℕ) : ℚ) / ((i.denominator * 10 ^ g.toNat : ℕ) : ℚ) =
      x / i.denominator / 10 ^ g := by
  rw [zpow_eq_div (by norm_num : (10 : ℚ) ≠ 0) g, Nat.cast_mul, Nat.cast_mul, Nat.cast_pow,
    Nat.cast_pow, Nat.cast_ofNat, mul_div_mul_comm, div_div_eq_mul_div, mul_div_assoc]

theorem lower_inUnits (i : Interval) (g : ℤ) : (i.inUnits g).lower = i.lower / 10 ^ g :=
  i.cast_inUnits_div g i.low

theorem middle_inUnits (i : Interval) (g : ℤ) : (i.inUnits g).middle = i.middle / 10 ^ g :=
  i.cast_inUnits_div g i.value

theorem upper_inUnits (i : Interval) (g : ℤ) : (i.inUnits g).upper = i.upper / 10 ^ g :=
  i.cast_inUnits_div g i.high

theorem denominator_inUnits_pos {i : Interval} (hden : 0 < i.denominator) (g : ℤ) :
    0 < (i.inUnits g).denominator :=
  Nat.mul_pos hden (Nat.pow_pos (by decide))

/-- In units of a power of ten, the interval holds the numbers that it holds. -/
theorem holds_inUnits (i : Interval) (g : ℤ) (r : ℚ) :
    (i.inUnits g).Holds r ↔ i.Holds (r * 10 ^ g) := by
  have unit : (0 : ℚ) < 10 ^ g := by positivity
  rw [holds_iff, holds_iff, lower_inUnits, upper_inUnits, div_le_iff₀ unit, le_div_iff₀ unit,
    div_lt_iff₀ unit, lt_div_iff₀ unit]
  rfl

/-! ### Neighbours -/

theorem contains_of_nearest? {i : Interval} {n : ℕ} (h : i.nearest? = some n) : i.contains n := by
  simp only [nearest?] at h
  split at h
  · rename_i first second
    split at h
    · exact Option.some.inj h ▸ first
    · exact Option.some.inj h ▸ second
  · rename_i first _
    exact Option.some.inj h ▸ first
  · rename_i _ second
    exact Option.some.inj h ▸ second
  · cases h

/-- One of the neighbours of the value is in an interval that is wider than a step. -/
theorem isSome_nearest? {i : Interval} (hden : 0 < i.denominator) (low : i.lower < i.middle)
    (high : i.middle < i.upper) (wide : i.lower + 1 < i.upper) : i.nearest?.isSome := by
  have inside {n : ℕ} (above : i.lower < n) (below : n < i.upper) : i.contains n :=
    (contains_iff hden n).mpr ⟨above.le, below.le, fun _ => ⟨above, below⟩⟩
  have floor : ((i.value / i.denominator : ℕ) : ℚ) ≤ i.middle := Nat.cast_div_le
  have next : i.middle < (i.value / i.denominator + 1 : ℕ) := by
    rw [middle, div_lt_iff₀ (by exact_mod_cast hden)]
    exact_mod_cast (Nat.div_lt_iff_lt_mul hden).mp (Nat.lt_succ_self _)
  have some_neighbour :
      i.contains (i.value / i.denominator) ∨ i.contains (i.value / i.denominator + 1) := by
    by_cases first : i.lower < (i.value / i.denominator : ℕ)
    · exact .inl (inside first (floor.trans_lt high))
    · refine .inr (inside (low.trans next) ?_)
      push_cast
      linarith
  unfold nearest?
  rcases some_neighbour with first | second
  · cases h : i.contains (i.value / i.denominator + 1) <;> simp [first, h]
  · cases h : i.contains (i.value / i.denominator) <;> simp [second, h]

/-- **What the search finds is in the interval**, if one of the grids that it
tries has a number there. -/
theorem holds_search {i : Interval} (hden : 0 < i.denominator) {g : ℤ} {k tries : ℕ}
    (hk : k < tries) (found : (i.inUnits (g - k)).nearest?.isSome) : i.Holds (i.search g tries).value := by
  induction tries generalizing g k with
  | zero => exact absurd hk (Nat.not_lt_zero k)
  | succ tries ih =>
    rw [search]
    split
    · rename_i n here
      have held := (contains_iff (denominator_inUnits_pos hden g) n).mp (contains_of_nearest? here)
      exact (i.holds_inUnits g n).mp held
    · rename_i nothing
      cases k with
      | zero =>
        rw [Nat.cast_zero, sub_zero, nothing] at found
        cases found
      | succ k =>
        refine ih (k := k) (by omega) ?_
        rw [show g - 1 - (k : ℤ) = g - (k + 1 : ℕ) by push_cast; ring]
        exact found

/-! ### The interval of a value -/

/-- How far the lower end is below a mantissa, in quarters of a step. -/
def lowerGap (m : ℕ) : ℕ := if m = 2 ^ 52 then 1 else 2

theorem lowerGap_le (m : ℕ) : lowerGap m ≤ 2 := by
  unfold lowerGap
  split <;> omega

theorem denominator_ofBinary_pos (m : ℕ) (q : ℤ) : 0 < (ofBinary m q).denominator :=
  Nat.pow_pos (by decide)

/-- A fraction of an interval in quarters of a step. -/
theorem cast_ofBinary_div (q : ℤ) (x : ℕ) :
    ((x * 2 ^ (q - 2).toNat : ℕ) : ℚ) / ((2 ^ (2 - q).toNat : ℕ) : ℚ) = x * 2 ^ (q - 2) := by
  rw [zpow_eq_div two_ne_zero (q - 2), neg_sub, Nat.cast_mul, Nat.cast_pow, Nat.cast_pow,
    Nat.cast_ofNat, mul_div_assoc]

theorem lower_ofBinary (m : ℕ) (q : ℤ) :
    (ofBinary m q).lower = (4 * m - lowerGap m : ℕ) * 2 ^ (q - 2) :=
  cast_ofBinary_div q (4 * m - lowerGap m)

theorem middle_ofBinary (m : ℕ) (q : ℤ) : (ofBinary m q).middle = (4 * m : ℕ) * 2 ^ (q - 2) :=
  cast_ofBinary_div q (4 * m)

theorem upper_ofBinary (m : ℕ) (q : ℤ) : (ofBinary m q).upper = (4 * m + 2 : ℕ) * 2 ^ (q - 2) :=
  cast_ofBinary_div q (4 * m + 2)

/-- A step of seventeen digits is narrower than the interval. -/
theorem lower_add_lt_upper {m : ℕ} {q : ℤ} (hm : 0 < m) (lt : m < 2 ^ 53) {step : ℚ}
    (hstep : step * 10 ^ 16 ≤ (ofBinary m q).middle) :
    (ofBinary m q).lower + step < (ofBinary m q).upper := by
  have quarter : (0 : ℚ) < 2 ^ (q - 2) := by positivity
  have narrow : 4 * m < (2 + lowerGap m) * 10 ^ 16 := by
    unfold lowerGap
    split <;> omega
  have narrow : ((4 * m : ℕ) : ℚ) < (2 + lowerGap m) * 10 ^ 16 := by exact_mod_cast narrow
  have gap : ((4 * m - lowerGap m : ℕ) : ℚ) = (4 * m : ℕ) - lowerGap m := by
    have := lowerGap_le m
    exact Nat.cast_sub (by omega)
  have scaled := mul_lt_mul_of_pos_right narrow quarter
  rw [middle_ofBinary] at hstep
  rw [lower_ofBinary, upper_ofBinary, gap]
  push_cast at hstep scaled ⊢
  linarith

/-- **The shortest digits are in the interval of their value.** -/
theorem holds_shortest {m : ℕ} {q : ℤ} (hm : 0 < m) (lt : m < 2 ^ 53) :
    (ofBinary m q).Holds (shortest m q).value := by
  have hden := denominator_ofBinary_pos m q
  have hvalue : 0 < (ofBinary m q).value :=
    Nat.mul_pos (Nat.mul_pos (by decide) hm) (Nat.pow_pos (by decide))
  have leading := zpow_leadingExponent_le hvalue hden
  rw [shortest, if_neg hm.ne', Digits.value_trim]
  generalize leadingExponent (ofBinary m q).value (ofBinary m q).denominator = g at leading
  -- the last of the seventeen grids has a number in the interval
  refine holds_search hden (k := 16) (by decide) ?_
  have unit : (0 : ℚ) < 10 ^ (g - (16 : ℕ)) := by positivity
  have step : (10 : ℚ) ^ (g - (16 : ℕ)) * 10 ^ 16 ≤ (ofBinary m q).middle := by
    rw [zpow_sub₀ (by norm_num), zpow_natCast, div_mul_cancel₀ _ (by norm_num)]
    exact leading
  have quarter : (0 : ℚ) < 2 ^ (q - 2) := by positivity
  have low : (ofBinary m q).lower < (ofBinary m q).middle := by
    have below : 4 * m - lowerGap m < 4 * m := by
      unfold lowerGap
      split <;> omega
    rw [lower_ofBinary, middle_ofBinary]
    exact mul_lt_mul_of_pos_right (by exact_mod_cast below) quarter
  have high : (ofBinary m q).middle < (ofBinary m q).upper := by
    have above : 4 * m < 4 * m + 2 := by omega
    rw [upper_ofBinary, middle_ofBinary]
    exact mul_lt_mul_of_pos_right (by exact_mod_cast above) quarter
  refine isSome_nearest? (denominator_inUnits_pos hden _) ?_ ?_ ?_
  · rw [lower_inUnits, middle_inUnits]
    exact div_lt_div_of_pos_right low unit
  · rw [middle_inUnits, upper_inUnits]
    exact div_lt_div_of_pos_right high unit
  · rw [lower_inUnits, upper_inUnits, div_add_one unit.ne']
    exact div_lt_div_of_pos_right (lower_add_lt_upper hm lt step) unit

/-! ### Intervals of different values -/

section

open SeriesParallel.Binary64 (Canonical)

variable {m m' : ℕ} {q q' : ℤ} {r : ℚ}

/-- Where two intervals share a number, the lower end of one is not above the
upper end of the other, and they meet there only if both mantissas are even. -/
theorem lower_le_of_holds (hq : q ≤ q') (held : (ofBinary m q).Holds r)
    (held' : (ofBinary m' q').Holds r) :
    (4 * m' - lowerGap m') * 2 ^ (q' - q).toNat ≤ 4 * m + 2 ∧
      (m % 2 = 1 ∨ m' % 2 = 1 → (4 * m' - lowerGap m') * 2 ^ (q' - q).toNat < 4 * m + 2) := by
  have quarter : (0 : ℚ) < 2 ^ (q - 2) := by positivity
  have lower : (ofBinary m' q').lower =
      ((4 * m' - lowerGap m') * 2 ^ (q' - q).toNat : ℕ) * 2 ^ (q - 2) := by
    have power : q' - 2 = ((q' - q).toNat : ℤ) + (q - 2) := by omega
    rw [lower_ofBinary, power, zpow_add₀ two_ne_zero, zpow_natCast]
    push_cast
    ring
  have closed {m : ℕ} {q : ℤ} (odd : m % 2 = 1) : (ofBinary m q).closed = false := by
    show (m % 2 == 0) = false
    rw [odd]
    rfl
  constructor
  · have ends := held'.lower_le.trans held.le_upper
    rw [lower, upper_ofBinary] at ends
    exact_mod_cast le_of_mul_le_mul_right ends quarter
  · intro odd
    have ends : (ofBinary m' q').lower < (ofBinary m q).upper := by
      rcases odd with odd | odd
      · exact held'.lower_le.trans_lt (held.inside (closed odd)).2
      · exact (held'.inside (closed odd)).1.trans_le held.le_upper
    rw [lower, upper_ofBinary] at ends
    exact_mod_cast lt_of_mul_lt_mul_right ends quarter.le

/-- Intervals of one step share no number. -/
theorem mantissa_le_of_holds (held : (ofBinary m q).Holds r) (held' : (ofBinary m' q).Holds r) :
    m' ≤ m := by
  obtain ⟨le, lt⟩ := lower_le_of_holds (le_refl q) held held'
  rw [sub_self, Int.toNat_zero, pow_zero, Nat.mul_one] at le lt
  have gap := lowerGap_le m'
  omega

/-- A value of a wider step is above the upper end of one with 53 bits. -/
theorem exponent_le_of_holds (h : Canonical m q) (h' : Canonical m' q')
    (held : (ofBinary m q).Holds r) (held' : (ofBinary m' q').Holds r) : q' ≤ q := by
  by_contra above
  obtain ⟨le, lt⟩ := lower_le_of_holds (by omega) held held'
  have normal : 2 ^ 52 ≤ m' := h'.normal.resolve_right (by have := h.le_exponent; omega)
  have short := h.mantissa_lt
  have wider : (4 * m' - lowerGap m') * 2 ≤ (4 * m' - lowerGap m') * 2 ^ (q' - q).toNat :=
    Nat.mul_le_mul_left _ (Nat.le_self_pow (by omega) 2)
  generalize (4 * m' - lowerGap m') * 2 ^ (q' - q).toNat = end' at *
  unfold lowerGap at wider
  split at wider <;> omega

/-- **A number is in the interval of one value at most.** -/
theorem eq_of_holds (h : Canonical m q) (h' : Canonical m' q') (held : (ofBinary m q).Holds r)
    (held' : (ofBinary m' q').Holds r) : m = m' ∧ q = q' := by
  have exponent := (exponent_le_of_holds h' h held' held).antisymm
    (exponent_le_of_holds h h' held held')
  subst exponent
  exact ⟨(mantissa_le_of_holds held' held).antisymm (mantissa_le_of_holds held held'), rfl⟩

end

end Interval

/-- **Different values have different shortest digits.** -/
theorem shortest_inj {m m' : ℕ} {q q' : ℤ} (h : SeriesParallel.Binary64.Canonical m q)
    (h' : SeriesParallel.Binary64.Canonical m' q')
    (same : (shortest m q).value = (shortest m' q').value) : m = m' ∧ q = q' := by
  have zero (q : ℤ) : (shortest 0 q).value = 0 := by
    show ((0 : ℕ) : ℚ) * 10 ^ (0 : ℤ) = 0
    rw [Nat.cast_zero, zero_mul]
  have pos {m : ℕ} {q : ℤ} (h : SeriesParallel.Binary64.Canonical m q) (hm : 0 < m) : 0 < (shortest m q).value := by
    refine lt_of_lt_of_le ?_ (Interval.holds_shortest hm h.mantissa_lt).lower_le
    have gap := Interval.lowerGap_le m
    have above : 0 < 4 * m - Interval.lowerGap m := by omega
    have above : (0 : ℚ) < (4 * m - Interval.lowerGap m : ℕ) := by exact_mod_cast above
    rw [Interval.lower_ofBinary]
    positivity
  have lowest {q : ℤ} (h : SeriesParallel.Binary64.Canonical 0 q) : q = -1074 := h.normal.resolve_left (by norm_num)
  rcases Nat.eq_zero_or_pos m with rfl | hm
  · rcases Nat.eq_zero_or_pos m' with rfl | hm'
    · exact ⟨rfl, (lowest h).trans (lowest h').symm⟩
    · exact absurd same (by rw [zero]; exact (pos h' hm').ne)
  · rcases Nat.eq_zero_or_pos m' with rfl | hm'
    · exact absurd same (by rw [zero]; exact (pos h hm).ne')
    · have held := Interval.holds_shortest hm h.mantissa_lt (q := q)
      rw [same] at held
      exact Interval.eq_of_holds h h' held (Interval.holds_shortest hm' h'.mantissa_lt)

/-! ## Texts -/

/-- Digits in positional notation are a numeral. -/
theorem Digits.exists_positional (negative : Bool) (d : Digits) :
    ∃ n : Positional, sign negative ++ d.positional = n.text ∧ n.negative = negative ∧
      n.magnitude = d.value := by
  refine ⟨.scaled negative (d.digits * 10 ^ d.exponent.toNat)
    (if d.digits = 0 then 0 else (-d.exponent).toNat), ?_, rfl, ?_⟩
  · rw [Positional.text_scaled, positional]
    split
    · rename_i zero
      rw [zero, Nat.zero_mul]
      rfl
    · rename_i ne
      rw [digitsOf_mul_pow (Nat.pos_of_ne_zero ne)]
  · rw [Positional.magnitude_scaled, value]
    split
    · rename_i zero
      simp [zero]
    · rw [zpow_eq_div (by norm_num : (10 : ℚ) ≠ 0)]
      push_cast
      ring

theorem sign_inj {b c : Bool} (h : sign b = sign c) : b = c := by
  cases b <;> cases c <;> first | rfl | cases h

/-- The plain text of a float is a word or a numeral. -/
theorem plain_cases (x : Float) :
    (Binary64.ofFloat x = .undefined ∧ plain x = "NaN") ∨
      (∃ negative, Binary64.ofFloat x = .infinite negative ∧
        (plain x).toList = sign negative ++ ['i', 'n', 'f']) ∨
      ∃ negative m q, ∃ n : Positional, Binary64.ofFloat x = .finite negative m q ∧
        (plain x).toList = n.text ∧ n.negative = negative ∧
        n.magnitude = (shortest m q).value := by
  cases hx : Binary64.ofFloat x with
  | undefined => exact .inl ⟨rfl, by rw [plain, hx]⟩
  | infinite negative =>
    refine .inr (.inl ⟨negative, rfl, ?_⟩)
    rw [plain, hx]
    exact String.toList_ofList
  | finite negative m q =>
    obtain ⟨n, text, rest⟩ := (shortest m q).exists_positional negative
    refine .inr (.inr ⟨negative, m, q, n, rfl, ?_, rest⟩)
    rw [plain, hx, ← text]
    exact String.toList_ofList

/-- The characters of plain texts: digits, a point, a minus sign and those of
the words. -/
theorem of_mem_plain {x : Float} {c : Char} (h : c ∈ (plain x).toList) :
    isDigit c ∨ c ∈ ['.', '-', 'N', 'a', 'i', 'n', 'f'] := by
  rcases plain_cases x with ⟨-, text⟩ | ⟨negative, -, text⟩ | ⟨negative, m, q, n, -, text, -⟩
  · have text : (plain x).toList = ['N', 'a', 'N'] := by rw [text]; rfl
    simp only [text, List.mem_cons, List.not_mem_nil, or_false] at h
    rcases h with rfl | rfl | rfl <;> exact .inr (by decide)
  · simp only [text, List.mem_append, List.mem_cons, List.not_mem_nil, or_false] at h
    rcases h with minus | rfl | rfl | rfl
    · rw [eq_of_mem_sign minus]
      exact .inr (by decide)
    all_goals exact .inr (by decide)
  · rw [text] at h
    rcases n.of_mem_text h with digit | rfl | rfl
    · exact .inl digit
    · exact .inr (by decide)
    · exact .inr (by decide)

/-- The plain text of a float has none of the marks of the notation in it. -/
theorem not_mem_plain (x : Float) :
    ∀ c ∈ ['(', ')', '\x7b', '\x7d', ',', ' '], c ∉ (plain x).toList := by
  intro c mark h
  have char := of_mem_plain h
  simp only [List.mem_cons, List.not_mem_nil, or_false] at mark
  rcases mark with rfl | rfl | rfl | rfl | rfl | rfl <;> exact absurd char (by decide)

/-- **Plain texts tell floats apart bit by bit**, unless they are undefined. -/
theorem plain_inj {x y : Float} (hx : ¬x.isNaN) (hy : ¬y.isNaN) (h : plain x = plain y) :
    x.toBits = y.toBits := by
  refine SeriesParallel.Binary64.toBits_eq_of_ofFloat_eq hx ?_
  have word {n : Positional} {b : Bool} : n.text ≠ sign b ++ ['i', 'n', 'f'] := by
    intro same
    have letter : 'i' ∈ n.text := by
      rw [same]
      exact List.mem_append_right _ List.mem_cons_self
    rcases n.of_mem_text letter with digit | point | minus
    · exact absurd digit (by decide)
    · exact absurd point (by decide)
    · exact absurd minus (by decide)
  rcases plain_cases x with ⟨parts, -⟩ | ⟨b, parts, text⟩ | ⟨b, m, q, n, parts, text, sign, value⟩
  · exact absurd parts (SeriesParallel.Binary64.ofFloat_ne_undefined hx)
  all_goals
    rw [h] at text
    rcases plain_cases y with
      ⟨parts', -⟩ | ⟨b', parts', text'⟩ | ⟨b', m', q', n', parts', text', sign', value'⟩
    · exact absurd parts' (SeriesParallel.Binary64.ofFloat_ne_undefined hy)
  · rw [parts, parts', sign_inj (List.append_cancel_right (text.symm.trans text'))]
  · exact absurd (text'.symm.trans text) word
  · exact absurd (text.symm.trans text') word
  · cases Positional.text_inj (text.symm.trans text')
    have same := shortest_inj (SeriesParallel.Binary64.canonical_of_ofFloat parts)
      (SeriesParallel.Binary64.canonical_of_ofFloat parts') (value.symm.trans value')
    rw [parts, parts', ← sign, ← sign', same.1, same.2]

end SeriesParallel.Decimal
