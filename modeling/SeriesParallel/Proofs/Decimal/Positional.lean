import SeriesParallel.Decimal.Reader
import SeriesParallel.Decimal.Text
import SeriesParallel.Proofs.Decimal.Numerals
import SeriesParallel.Text.Blank

/-!
# Decimal — positional numerals

A positional numeral is a sign, digits in front of the point without a
superfluous zero, and digits behind it. Its text is read as the number that it
stands for. A numeral is canonical when its last decimal is not a zero and it
has no sign where it stands for zero. Every number that has a numeral has just
one that is canonical.
-/

namespace SeriesParallel.Decimal

/-- What stands behind the digits in front: nothing, or a point and decimals. -/
def point (ds : List Char) : List Char := if ds = [] then [] else '.' :: ds

/-- A sign, digits in front of the point and digits behind it. -/
@[ext]
structure Positional where
  negative : Bool
  whole : List Char
  decimals : List Char
  whole_digits : ∀ c ∈ whole, isDigit c
  leads : Leads whole
  decimals_digits : ∀ c ∈ decimals, isDigit c

namespace Positional

/-- The text of a numeral. It has a point only in front of decimals. -/
def text (n : Positional) : List Char := sign n.negative ++ (n.whole ++ point n.decimals)

/-- All digits of a numeral, read without the point. -/
def digits (n : Positional) : ℕ := readDigits (n.whole ++ n.decimals)

/-- The number without its sign. -/
def magnitude (n : Positional) : ℚ := n.digits / 10 ^ n.decimals.length

/-- The number that a numeral stands for. -/
def value (n : Positional) : ℚ := if n.negative then -n.magnitude else n.magnitude

variable {n m : Positional}

theorem magnitude_nonneg (n : Positional) : 0 ≤ n.magnitude := by
  unfold magnitude
  positivity

theorem magnitude_eq_zero_iff : n.magnitude = 0 ↔ n.digits = 0 := by
  rw [magnitude, div_eq_zero_iff, Nat.cast_eq_zero]
  exact or_iff_left (by positivity)

theorem abs_value (n : Positional) : |n.value| = n.magnitude := by
  unfold value
  split
  · rw [abs_neg, abs_of_nonneg n.magnitude_nonneg]
  · rw [abs_of_nonneg n.magnitude_nonneg]

theorem value_eq_zero_iff : n.value = 0 ↔ n.digits = 0 := by
  rw [← abs_eq_zero, abs_value, magnitude_eq_zero_iff]

end Positional

/-! ## Reading a numeral -/

/-- The number that a text denotes, if it is a numeral with an optional sign. -/
def number? (cs : List Char) : Option ℚ :=
  let (negative, body) := splitSign cs
  (numeral? body).map fun n =>
    let magnitude : ℚ := n.digits * 10 ^ n.exponent
    if negative then -magnitude else magnitude

theorem eq_of_mem_sign {negative : Bool} {c : Char} (h : c ∈ sign negative) : c = '-' := by
  unfold sign at h
  split at h
  · exact List.mem_singleton.mp h
  · exact absurd h List.not_mem_nil

/-- A sign is split off in front of a digit. -/
theorem splitSign_sign (negative : Bool) {cs : List Char} (h : ∀ c ∈ cs.head?, isDigit c) :
    splitSign (sign negative ++ cs) = (negative, cs) := by
  cases negative with
  | true => rfl
  | false =>
    show splitSign cs = _
    unfold splitSign
    split
    · exact absurd (h '-' rfl) (by decide)
    · exact absurd (h '+' rfl) (by decide)
    · rfl

theorem point_inj {cs ds : List Char} (h : point cs = point ds) : cs = ds := by
  unfold point at h
  split at h <;> split at h
  · rename_i hc hd
    rw [hc, hd]
  · cases h
  · cases h
  · exact List.tail_eq_of_cons_eq h

theorem takeWhile_point (ds : List Char) : (point ds).takeWhile isDigit = [] := by
  unfold point
  split <;> rfl

theorem dropWhile_point (ds : List Char) : (point ds).dropWhile isDigit = point ds := by
  unfold point
  split <;> rfl

theorem numeral?_digits_point {ws ds : List Char} (hw : ∀ c ∈ ws, isDigit c) (ne : ws ≠ [])
    (hd : ∀ c ∈ ds, isDigit c) :
    numeral? (ws ++ point ds) = some ⟨readDigits (ws ++ ds), -(ds.length : ℤ)⟩ := by
  have whole : (ws ++ point ds).takeWhile isDigit = ws := by
    rw [List.takeWhile_append_of_pos hw, takeWhile_point, List.append_nil]
  have rest : (ws ++ point ds).dropWhile isDigit = point ds := by
    rw [List.dropWhile_append_of_pos hw, dropWhile_point]
  have some_digit : ws.isEmpty = false := List.isEmpty_eq_false_iff.mpr ne
  have decimals : ds.takeWhile isDigit = ds := List.takeWhile_eq_self_iff.mpr hd
  have nothing : ds.dropWhile isDigit = [] := List.dropWhile_eq_nil_iff.mpr hd
  simp only [numeral?, whole, rest]
  by_cases hds : ds = []
  · simp [point, hds, some_digit, power?]
  · simp [point, hds, some_digit, decimals, nothing, power?]

namespace Positional

variable {n m : Positional}

theorem isDigit_of_mem_head? (n : Positional) :
    ∀ c ∈ (n.whole ++ point n.decimals).head?, isDigit c := by
  intro c hc
  rw [List.head?_append_of_ne_nil _ n.leads.1] at hc
  exact n.whole_digits c (List.mem_of_mem_head? hc)

/-- **A numeral is read as its number.** -/
theorem number?_text (n : Positional) : number? n.text = some n.value := by
  rw [number?, text, splitSign_sign _ n.isDigit_of_mem_head?]
  simp only [numeral?_digits_point n.whole_digits n.leads.1 n.decimals_digits, Option.map_some,
    zpow_neg, zpow_natCast, ← div_eq_mul_inv]
  rfl

/-- **A numeral is determined by its text.** -/
theorem text_inj (h : n.text = m.text) : n = m := by
  have parts : splitSign n.text = splitSign m.text := by rw [h]
  rw [text, text, splitSign_sign _ n.isDigit_of_mem_head?, splitSign_sign _ m.isDigit_of_mem_head?,
    Prod.mk.injEq] at parts
  obtain ⟨negative, body⟩ := parts
  have whole (k : Positional) : (k.whole ++ point k.decimals).takeWhile isDigit = k.whole := by
    rw [List.takeWhile_append_of_pos k.whole_digits, takeWhile_point, List.append_nil]
  have whole_eq : n.whole = m.whole := by rw [← whole n, body, whole m]
  rw [whole_eq] at body
  exact Positional.ext negative whole_eq (point_inj (List.append_cancel_left body))

/-- A numeral is written with digits, a point and a minus sign. -/
theorem of_mem_text {c : Char} (h : c ∈ n.text) : isDigit c ∨ c = '.' ∨ c = '-' := by
  rw [text, List.mem_append, List.mem_append] at h
  rcases h with h | h | h
  · exact .inr (.inr (eq_of_mem_sign h))
  · exact .inl (n.whole_digits c h)
  · unfold point at h
    split at h
    · exact absurd h List.not_mem_nil
    · rcases List.mem_cons.mp h with rfl | h
      · exact .inr (.inl rfl)
      · exact .inl (n.decimals_digits c h)

/-! ## Canonical numerals -/

/-- The last decimal is not a zero, and zero has no sign. -/
structure IsCanonical (n : Positional) : Prop where
  last_ne_zero : n.decimals.getLast? ≠ some '0'
  zero_not_negative : n.value = 0 → n.negative = false

/-- A digit that is not a zero ends the digits as one. -/
theorem digits_mod_ten (n : Positional) (ne : n.decimals ≠ [])
    (last : n.decimals.getLast? ≠ some '0') : n.digits % 10 ≠ 0 := by
  obtain h | ⟨ds, c, h⟩ := List.eq_nil_or_concat' n.decimals
  · exact absurd h ne
  · have digit : isDigit c := n.decimals_digits c (by simp [h])
    have small := (digitChar_digitValue digit).1
    have c_ne : c ≠ '0' := by
      rintro rfl
      exact last (by simp [h])
    have value_ne : digitValue c ≠ 0 :=
      fun zero => c_ne (digitValue_inj digit (by decide) (by rw [zero]; rfl))
    rw [digits, h, ← List.append_assoc, readDigits_concat]
    omega

/-- A canonical numeral has no more decimals than another one of its number. -/
theorem length_decimals_le (last : n.decimals.getLast? ≠ some '0')
    (h : n.digits * 10 ^ m.decimals.length = m.digits * 10 ^ n.decimals.length) :
    n.decimals.length ≤ m.decimals.length := by
  by_contra longer
  obtain ⟨k, hk⟩ := Nat.exists_eq_add_of_lt (not_le.mp longer)
  have ne : n.decimals ≠ [] := by
    intro nil
    rw [nil] at hk
    simp at hk
  refine n.digits_mod_ten ne last ?_
  have positive : 0 < 10 ^ m.decimals.length := by positivity
  have multiple : n.digits = m.digits * 10 ^ k * 10 := by
    refine Nat.eq_of_mul_eq_mul_right positive ?_
    rw [h, hk]
    ring
  omega

/-- The point divides digits in one way. -/
theorem eq_of_digits_eq (negative : n.negative = m.negative)
    (length : n.decimals.length = m.decimals.length) (h : n.digits = m.digits) : n = m := by
  have below := readDigits_lt n.decimals_digits
  have below' := readDigits_lt m.decimals_digits
  rw [digits, digits, readDigits_append, readDigits_append, length] at h
  rw [length] at below
  -- the digits in front are the quotient, those behind the remainder
  have decimals : readDigits n.decimals = readDigits m.decimals := by
    have remainder := congrArg (· % 10 ^ m.decimals.length) h
    simpa [Nat.mul_add_mod, Nat.mod_eq_of_lt below, Nat.mod_eq_of_lt below'] using remainder
  have whole : readDigits n.whole = readDigits m.whole := by
    rw [decimals] at h
    exact Nat.eq_of_mul_eq_mul_left (by positivity) (Nat.add_right_cancel h)
  refine Positional.ext negative ?_ ?_
  · rw [← digitsOf_readDigits n.whole_digits n.leads, whole,
      digitsOf_readDigits m.whole_digits m.leads]
  · exact eq_of_readDigits_eq n.decimals_digits m.decimals_digits length decimals

/-- A number other than zero shows its sign. -/
theorem negative_iff_value_neg (h : n.value = 0 → n.negative = false) :
    n.negative = true ↔ n.value < 0 := by
  have nonneg := n.magnitude_nonneg
  cases hneg : n.negative with
  | false =>
    have positive : n.value = n.magnitude := by simp [value, hneg]
    simp [positive, nonneg]
  | true =>
    have negative : n.value = -n.magnitude := by simp [value, hneg]
    have ne : n.value ≠ 0 := fun zero => by simp [h zero] at hneg
    simp only [true_iff]
    exact lt_of_le_of_ne (by linarith) ne

/-- **A canonical numeral is determined by its number.** -/
theorem eq_of_value_eq (hn : n.IsCanonical) (hm : m.IsCanonical) (h : n.value = m.value) :
    n = m := by
  have negative : n.negative = m.negative := by
    rw [Bool.eq_iff_iff, negative_iff_value_neg hn.zero_not_negative,
      negative_iff_value_neg hm.zero_not_negative, h]
  have scaled : n.digits * 10 ^ m.decimals.length = m.digits * 10 ^ n.decimals.length := by
    have magnitude : n.magnitude = m.magnitude := by rw [← abs_value, h, abs_value]
    rw [Positional.magnitude, Positional.magnitude,
      div_eq_div_iff (by positivity) (by positivity)] at magnitude
    exact_mod_cast magnitude
  have length : n.decimals.length = m.decimals.length :=
    (length_decimals_le hn.last_ne_zero scaled).antisymm
      (length_decimals_le hm.last_ne_zero scaled.symm)
  refine eq_of_digits_eq negative length ?_
  rw [length] at scaled
  exact Nat.eq_of_mul_eq_mul_right (by positivity) scaled

/-! ## Making a numeral canonical -/

theorem mem_of_mem_dropEnd {p : Char → Bool} {cs : List Char} {c : Char}
    (h : c ∈ Text.dropEnd p cs) : c ∈ cs := by
  obtain ⟨ds, -, hcs⟩ := Text.exists_dropEnd_append p cs
  rw [hcs]
  exact List.mem_append_left ds h

/-- The numeral without the zeros at the end of its decimals. -/
def dropZeros (n : Positional) : Positional where
  negative := n.negative
  whole := n.whole
  decimals := Text.dropEnd (· = '0') n.decimals
  whole_digits := n.whole_digits
  leads := n.leads
  decimals_digits _ hc := n.decimals_digits _ (mem_of_mem_dropEnd hc)

theorem dropZeros_decimals (n : Positional) :
    n.dropZeros.decimals = Text.dropEnd (· = '0') n.decimals := rfl

/-- What is left of the decimals, and the zeros behind it. -/
theorem exists_zeros (n : Positional) :
    ∃ k, n.decimals = n.dropZeros.decimals ++ List.replicate k '0' := by
  obtain ⟨zeros, all, h⟩ := Text.exists_dropEnd_append (· = '0') n.decimals
  rw [List.eq_replicate_of_mem fun c hc => of_decide_eq_true (all c hc)] at h
  exact ⟨_, h⟩

theorem length_decimals_dropZeros_le (n : Positional) :
    n.dropZeros.decimals.length ≤ n.decimals.length := by
  obtain ⟨k, h⟩ := n.exists_zeros
  rw [h, List.length_append]
  exact Nat.le_add_right _ _

theorem getLast?_dropZeros (n : Positional) : n.dropZeros.decimals.getLast? ≠ some '0' := by
  intro last
  have kept := Text.getLast?_dropEnd (· = '0') n.decimals '0' last
  simp at kept

/-- **Zeros at the end do not count.** -/
theorem value_dropZeros (n : Positional) : n.dropZeros.value = n.value := by
  have magnitude_eq : n.dropZeros.magnitude = n.magnitude := by
    obtain ⟨k, h⟩ := n.exists_zeros
    have digits : n.digits = 10 ^ k * n.dropZeros.digits := by
      rw [Positional.digits, h, ← List.append_assoc, readDigits_append, List.length_replicate,
        readDigits_replicate_zero, Nat.add_zero]
      rfl
    rw [magnitude, magnitude, digits, h, List.length_append, List.length_replicate, pow_add]
    push_cast
    rw [mul_comm ((10 : ℚ) ^ k), mul_div_mul_right _ _ (by positivity)]
  rw [value, value, magnitude_eq]
  rfl

/-- The numeral without a sign where it stands for zero. -/
def dropSign (n : Positional) : Positional := { n with negative := n.negative && n.digits != 0 }

/-- **The sign of zero does not count.** -/
theorem value_dropSign (n : Positional) : n.dropSign.value = n.value := by
  have magnitude_eq : n.dropSign.magnitude = n.magnitude := rfl
  rw [value, value, magnitude_eq]
  by_cases zero : n.digits = 0
  · have nothing : n.magnitude = 0 := magnitude_eq_zero_iff.mpr zero
    simp [nothing]
  · simp [dropSign, zero]

/-- The canonical numeral of the same number. -/
def trim (n : Positional) : Positional := n.dropZeros.dropSign

theorem value_trim (n : Positional) : n.trim.value = n.value := by
  rw [trim, value_dropSign, value_dropZeros]

/-- **A trimmed numeral is canonical.** -/
theorem isCanonical_trim (n : Positional) : n.trim.IsCanonical where
  last_ne_zero := n.getLast?_dropZeros
  zero_not_negative zero := by
    rw [trim, value_dropSign, value_eq_zero_iff] at zero
    simp [trim, dropSign, zero]

/-- Without zeros at the end, zero is one digit and no decimal. -/
theorem digits_eq_zero_iff (last : n.decimals.getLast? ≠ some '0') :
    n.digits = 0 ↔ n.whole = ['0'] ∧ n.decimals = [] := by
  constructor
  · intro zero
    have all := eq_zeros_of_readDigits_eq_zero
      (List.forall_mem_append.mpr ⟨n.whole_digits, n.decimals_digits⟩) zero
    rw [List.append_eq_replicate_iff] at all
    obtain ⟨-, whole, decimals⟩ := all
    have some_digit : n.whole.length ≠ 0 := fun h => n.leads.1 (List.length_eq_zero_iff.mp h)
    refine ⟨n.leads.2 ?_, ?_⟩
    · rw [whole, List.head?_replicate, if_neg some_digit]
    · by_contra some_decimal
      have some_decimal : n.decimals.length ≠ 0 :=
        fun h => some_decimal (List.length_eq_zero_iff.mp h)
      rw [decimals, List.getLast?_replicate, if_neg some_decimal] at last
      exact last rfl
  · rintro ⟨whole, decimals⟩
    rw [digits, whole, decimals]
    exact readDigits_replicate_zero 1

end Positional

/-! ## Numbers of a fixed number of places -/

/-- The digits of a number, with zeros in front so that there is one in front
of the point. -/
def padded (n places : ℕ) : List Char :=
  List.replicate (places + 1 - (digitsOf n).length) '0' ++ digitsOf n

theorem isDigit_of_mem_padded {n places : ℕ} : ∀ c ∈ padded n places, isDigit c :=
  List.forall_mem_append.mpr ⟨isDigit_of_mem_zeros, fun _ => isDigit_of_mem_digitsOf⟩

theorem lt_length_padded (n places : ℕ) : places < (padded n places).length := by
  rw [padded, List.length_append, List.length_replicate]
  omega

theorem readDigits_padded (n places : ℕ) : readDigits (padded n places) = n := by
  rw [padded, readDigits_append, readDigits_replicate_zero, Nat.mul_zero, Nat.zero_add,
    readDigits_digitsOf]

theorem leads_take_padded (n places : ℕ) :
    Leads ((padded n places).take ((padded n places).length - places)) := by
  have long := lt_length_padded n places
  by_cases short : (digitsOf n).length ≤ places
  · -- one zero stands in front of the point
    have length : (padded n places).length = places + 1 := by
      rw [padded, List.length_append, List.length_replicate]
      omega
    obtain ⟨k, hk⟩ := Nat.exists_eq_add_of_lt (by omega : 0 < places + 1 - (digitsOf n).length)
    rw [length, Nat.add_sub_cancel_left, padded, hk, List.replicate_succ]
    exact ⟨List.cons_ne_nil _ _, fun _ => rfl⟩
  · have same : padded n places = digitsOf n := by
      rw [padded, Nat.sub_eq_zero_of_le (by omega)]
      rfl
    rw [same] at long ⊢
    have leads := leads_digitsOf n
    refine ⟨?_, fun head => ?_⟩
    · rw [ne_eq, List.take_eq_nil_iff, not_or]
      exact ⟨by omega, leads.1⟩
    · rw [List.head?_take, if_neg (by omega)] at head
      have alone := leads.2 head
      rw [alone] at long ⊢
      have : places = 0 := by simpa using long
      rw [this]
      rfl

/-- The numeral of `n` in units of `10 ^ -places`. -/
def Positional.scaled (negative : Bool) (n places : ℕ) : Positional where
  negative := negative
  whole := (padded n places).take ((padded n places).length - places)
  decimals := (padded n places).drop ((padded n places).length - places)
  whole_digits _ h := isDigit_of_mem_padded _ (List.mem_of_mem_take h)
  leads := leads_take_padded n places
  decimals_digits _ h := isDigit_of_mem_padded _ (List.mem_of_mem_drop h)

namespace Positional

theorem length_decimals_scaled (negative : Bool) (n places : ℕ) :
    (scaled negative n places).decimals.length = places := by
  have := lt_length_padded n places
  show List.length (List.drop _ _) = _
  rw [List.length_drop]
  omega

theorem digits_scaled (negative : Bool) (n places : ℕ) : (scaled negative n places).digits = n := by
  show readDigits (_ ++ _) = n
  rw [scaled, List.take_append_drop, readDigits_padded]

theorem magnitude_scaled (negative : Bool) (n places : ℕ) :
    (scaled negative n places).magnitude = n / 10 ^ places := by
  rw [magnitude, digits_scaled, length_decimals_scaled]

/-- **Digits with a point among them are the text of a numeral.** -/
theorem text_scaled (negative : Bool) (n places : ℕ) :
    (scaled negative n places).text = sign negative ++ withPoint (digitsOf n) places := by
  show sign negative ++ (List.take _ (padded n places) ++ point (List.drop _ (padded n places))) = _
  rw [withPoint, ← padded]
  by_cases h : places = 0
  · subst h
    simp [point]
  · have ne : (padded n places).drop ((padded n places).length - places) ≠ [] := by
      rw [ne_eq, List.drop_eq_nil_iff]
      have := lt_length_padded n places
      omega
    simp only [if_neg h, point, if_neg ne]

end Positional

end SeriesParallel.Decimal
