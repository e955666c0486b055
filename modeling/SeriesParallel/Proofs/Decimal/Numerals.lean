import Mathlib
import SeriesParallel.Decimal.Digits

/-!
# Decimal — numerals

The digits of a natural number are read as that number, and digits none of
which could be left out are those of the number that they spell.
-/

namespace SeriesParallel.Decimal

/-! ## Digits -/

/-- A digit is the character of its value. -/
theorem digitChar_digitValue {c : Char} (h : isDigit c) :
    digitValue c < 10 ∧ Nat.digitChar (digitValue c) = c := by
  have bounds : '0' ≤ c ∧ c ≤ '9' := of_decide_eq_true h
  have low : 48 ≤ c.toNat := bounds.1
  have high : c.toNat ≤ 57 := bounds.2
  rw [digitValue, ← Char.ofNat_toNat c]
  generalize c.toNat = n at low high
  interval_cases n <;> decide

theorem digitValue_inj {c d : Char} (hc : isDigit c) (hd : isDigit d)
    (h : digitValue c = digitValue d) : c = d := by
  rw [← (digitChar_digitValue hc).2, h, (digitChar_digitValue hd).2]

theorem isDigit_of_mem_digitsOf {n : ℕ} {c : Char} (h : c ∈ digitsOf n) : isDigit c := by
  have digit : c.isDigit := Nat.isDigit_of_mem_toDigits (by decide) (by decide) h
  rw [Char.isDigit, Bool.and_eq_true, decide_eq_true_eq, decide_eq_true_eq] at digit
  exact decide_eq_true ⟨digit.1, digit.2⟩

theorem readDigits_nil : readDigits [] = 0 := by
  rw [readDigits, List.reverse_nil, List.map_nil, ofDigits]

theorem readDigits_concat (ds : List Char) (c : Char) :
    readDigits (ds ++ [c]) = 10 * readDigits ds + digitValue c := by
  rw [readDigits, List.reverse_append, List.reverse_singleton, List.singleton_append,
    List.map_cons, ofDigits_cons, Nat.add_comm, readDigits]

/-- Joining neighbours gives the number that is read from left to right. -/
theorem readDigits_eq_ofDigitChars (ds : List Char) : readDigits ds = Nat.ofDigitChars 10 ds 0 := by
  induction ds using List.reverseRecOn with
  | nil => exact readDigits_nil
  | append_singleton ds c ih =>
    rw [readDigits_concat, Nat.ofDigitChars_append, Nat.ofDigitChars_cons, Nat.ofDigitChars_nil, ih,
      digitValue]

theorem readDigits_append (cs ds : List Char) :
    readDigits (cs ++ ds) = 10 ^ ds.length * readDigits cs + readDigits ds := by
  simp only [readDigits_eq_ofDigitChars, Nat.ofDigitChars_append]
  exact Nat.ofDigitChars_eq_ofDigitChars_zero

theorem readDigits_digitsOf (n : ℕ) : readDigits (digitsOf n) = n := by
  rw [readDigits_eq_ofDigitChars]
  exact Nat.ofDigitChars_toDigits (by decide) (by decide)

theorem readDigits_replicate_zero (k : ℕ) : readDigits (List.replicate k '0') = 0 := by
  rw [readDigits_eq_ofDigitChars, Nat.ofDigitChars_replicate_zero, Nat.mul_zero]

theorem readDigits_lt {ds : List Char} (h : ∀ d ∈ ds, isDigit d) :
    readDigits ds < 10 ^ ds.length := by
  induction ds using List.reverseRecOn with
  | nil =>
    rw [readDigits_nil]
    exact Nat.one_pos
  | append_singleton ds c ih =>
    have := ih fun d hd => h d (List.mem_append_left _ hd)
    have := (digitChar_digitValue (h c (by simp))).1
    rw [readDigits_concat, List.length_append, List.length_singleton, pow_succ]
    omega

/-- As many digits that spell the same number are the same digits. -/
theorem eq_of_readDigits_eq {cs ds : List Char} (hc : ∀ c ∈ cs, isDigit c)
    (hd : ∀ d ∈ ds, isDigit d) (length : cs.length = ds.length)
    (h : readDigits cs = readDigits ds) : cs = ds := by
  induction cs using List.reverseRecOn generalizing ds with
  | nil => exact (List.length_eq_zero_iff.mp length.symm).symm
  | append_singleton cs c ih =>
    obtain rfl | ⟨ds, d, rfl⟩ := List.eq_nil_or_concat' ds
    · simp at length
    · have hc' := hc c (by simp)
      have hd' := hd d (by simp)
      have := (digitChar_digitValue hc').1
      have := (digitChar_digitValue hd').1
      rw [readDigits_concat, readDigits_concat] at h
      rw [ih (fun c hc' => hc c (List.mem_append_left _ hc'))
        (fun d hd' => hd d (List.mem_append_left _ hd')) (by simpa using length) (by omega),
        digitValue_inj hc' hd' (by omega)]

theorem isDigit_of_mem_zeros {k : ℕ} : ∀ c ∈ List.replicate k '0', isDigit c := by
  intro c hc
  rw [List.eq_of_mem_replicate hc]
  decide

/-- Digits that spell zero are zeros. -/
theorem eq_zeros_of_readDigits_eq_zero {ds : List Char} (digits : ∀ d ∈ ds, isDigit d)
    (h : readDigits ds = 0) : ds = List.replicate ds.length '0' :=
  eq_of_readDigits_eq digits isDigit_of_mem_zeros List.length_replicate.symm
    (h.trans (readDigits_replicate_zero _).symm)

/-- No digit in front could be left out. -/
def Leads (ds : List Char) : Prop := ds ≠ [] ∧ (ds.head? = some '0' → ds = ['0'])

theorem leads_digitsOf (n : ℕ) : Leads (digitsOf n) := by
  refine ⟨Nat.toDigits_ne_nil, ?_⟩
  induction n using Nat.strongRecOn with
  | ind n ih =>
    rw [digitsOf, Nat.toDigits_eq_if (by decide)]
    split
    · intro h
      rw [List.head?_cons] at h
      rw [Option.some.inj h]
    · rename_i large
      intro h
      rw [List.head?_append_of_ne_nil _ Nat.toDigits_ne_nil] at h
      have zero := readDigits_digitsOf (n / 10)
      rw [ih (n / 10) (by omega) h] at zero
      have : readDigits ['0'] = 0 := readDigits_replicate_zero 1
      omega

/-- Digits none of which could be left out are those of the number that they spell. -/
theorem digitsOf_readDigits {ds : List Char} (digits : ∀ d ∈ ds, isDigit d) (leads : Leads ds) :
    digitsOf (readDigits ds) = ds := by
  induction ds using List.reverseRecOn with
  | nil => exact absurd rfl leads.1
  | append_singleton ds c ih =>
    obtain ⟨small, char⟩ := digitChar_digitValue (digits c (by simp))
    rw [readDigits_concat]
    by_cases hds : ds = []
    · subst hds
      rw [readDigits_nil, Nat.mul_zero, Nat.zero_add, digitsOf, Nat.toDigits_of_lt_base small, char,
        List.nil_append]
    · have head : ds.head? ≠ some '0' := by
        intro h
        have whole := leads.2 (by rw [List.head?_append_of_ne_nil _ hds, h])
        exact hds (List.append_eq_singleton_iff.mp whole |>.resolve_right (by simp)).1
      have front := ih (fun d hd => digits d (List.mem_append_left _ hd)) ⟨hds, fun h => absurd h head⟩
      have pos : 0 < readDigits ds := by
        refine Nat.pos_of_ne_zero fun zero => head ?_
        rw [← front, zero]
        rfl
      rw [digitsOf, ← Nat.toDigits_append_toDigits (by decide) pos small,
        Nat.toDigits_of_lt_base small, char]
      exact congrArg (· ++ [c]) front

/-- Zeros at the end are powers of ten. -/
theorem digitsOf_mul_pow {n : ℕ} (hn : 0 < n) (k : ℕ) :
    digitsOf (n * 10 ^ k) = digitsOf n ++ List.replicate k '0' := by
  induction k with
  | zero => rw [pow_zero, Nat.mul_one, List.replicate_zero, List.append_nil]
  | succ k ih =>
    have pos : 0 < n * 10 ^ k := by positivity
    have next : n * 10 ^ (k + 1) = 10 * (n * 10 ^ k) + 0 := by ring
    rw [next, digitsOf, ← Nat.toDigits_append_toDigits (by decide) pos (by decide)]
    show digitsOf (n * 10 ^ k) ++ ['0'] = _
    rw [ih, List.append_assoc, ← List.replicate_succ']

/-! ## Powers -/

/-- A whole power as the quotient of two natural ones. -/
theorem zpow_eq_div {b : ℚ} (hb : b ≠ 0) (g : ℤ) : b ^ g = b ^ g.toNat / b ^ (-g).toNat := by
  conv_lhs => rw [← Int.toNat_sub_toNat_neg g]
  rw [zpow_sub₀ hb, zpow_natCast, zpow_natCast]

end SeriesParallel.Decimal
