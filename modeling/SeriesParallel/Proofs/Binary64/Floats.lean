import SeriesParallel.Quantity
import SeriesParallel.Proofs.Binary64.Arithmetic

/-!
# Binary64 — floats as rationals

The arithmetic of floats, said of the numbers that they stand for: sums, products and quotients are
the exact results rounded, the comparisons with zero are those of the numbers, and a sum of parts
that are not negative is at least each part.
-/

namespace SeriesParallel.Binary64

open Float.Model Float.Model.UnpackedFloat

/-! ## Operations on floats -/

/-- The number that a float stands for, if it is one that is not negative. -/
def value? (f : Float) : Option ℚ := number? f.toModel.unpack

/-- A float is positive infinity. -/
def IsInfinite (f : Float) : Prop := f.toModel.unpack = .infinity .positive

/-- A float is the result of rounding a number. -/
def Rounds (f : Float) (x : ℚ) : Prop := RoundedTo x f.toModel.unpack

section

variable {a b : Float} {x y : ℚ}

theorem stands_of_value? (h : value? a = some x) : Stands a.toModel.unpack x :=
  stands_of_number? h

theorem rounds_add (ha : value? a = some x) (hb : value? b = some y) : Rounds (a + b) (x + y) :=
  (stands_of_value? ha).add (stands_of_value? hb)

theorem rounds_mul (ha : value? a = some x) (hb : value? b = some y) : Rounds (a * b) (x * y) :=
  (stands_of_value? ha).mul (stands_of_value? hb)

theorem rounds_div (ha : value? a = some x) (hb : value? b = some y) (hy : 0 < y) :
    Rounds (a / b) (x / y) :=
  (stands_of_value? ha).div (stands_of_value? hb) hy

theorem isNumber_of_value? (h : value? a = some x) : IsNumber x := isNumber_of_number? h

theorem value?_nonneg (h : value? a = some x) : 0 ≤ x := by
  obtain ⟨m, e, -, rfl⟩ := isNumber_of_value? h
  positivity

theorem value?_one : value? 1.0 = some 1 := by decide +kernel

/-! ### Finite floats -/

theorem lt_iff_compare : a < b ↔ a.toModel.unpack.compare b.toModel.unpack = some .lt := by
  show decide (a.toModel < b.toModel) = true ↔ _
  rw [decide_eq_true_iff]
  exact beq_iff_eq

theorem unpack_zero : (0.0 : Float).toModel.unpack = .zero .positive := by rfl

/-- **A finite float that is not below zero stands for a number.** -/
theorem exists_value? (finite : Quantity.isFinite a) (not_neg : ¬a < 0) :
    ∃ x, value? a = some x := by
  have finite : a.toModel.unpack.isFinite := finite
  have not_neg : ¬a.toModel.unpack.compare (.zero .positive) = some .lt := by
    rw [← unpack_zero, ← lt_iff_compare]
    exact not_neg
  unfold value?
  cases hu : a.toModel.unpack with
  | zero s => exact ⟨0, rfl⟩
  | finite s m e hm =>
    cases s with
    | positive => exact ⟨_, rfl⟩
    | negative =>
      rw [hu] at not_neg
      exact absurd rfl not_neg
  | infinity s =>
    rw [hu] at finite
    cases finite
  | notANumber =>
    rw [hu] at finite
    cases finite

theorem isFinite_of_value? (h : value? a = some x) : Quantity.isFinite a :=
  (stands_of_value? h).isFinite

theorem zero_lt_iff (h : value? a = some x) : 0 < a ↔ 0 < x := by
  rw [← (stands_of_value? h).zero_lt_iff, ← unpack_zero]
  exact lt_iff_compare

theorem not_lt_zero (h : value? a = some x) : ¬a < 0 := by
  have not_below := (stands_of_value? h).not_lt_zero
  rw [← unpack_zero, ← lt_iff_compare] at not_below
  exact not_below

theorem pos_of_ne_zero (h : value? a = some x) (hne : (a == 0) = false) : 0 < x := by
  refine (stands_of_value? h).pos_of_ne_zero fun equal => Bool.false_ne_true ?_
  rw [← hne, ← beq_iff_eq.mpr equal, ← unpack_zero]
  rfl

end

/-! ## Sums -/

/-- A float that is not negative: a number, or infinity. -/
def NotNegative (f : Float) : Prop := (∃ x, value? f = some x) ∨ IsInfinite f

section

variable {a b s : Float} {xs : List Float} {x y z r : ℚ}

theorem Rounds.notNegative (h : Rounds a x) : NotNegative a := by
  obtain ⟨n, t, -, hvalue | ⟨hinfinite, -⟩⟩ := h
  · exact .inl ⟨_, hvalue⟩
  · exact .inr hinfinite

theorem IsInfinite.add (ha : IsInfinite a) (hb : NotNegative b) :
    IsInfinite (a + b) ∧ IsInfinite (b + a) := by
  show (Float.Model.pack (.add .binary64 a.toModel.unpack b.toModel.unpack)).unpack = _ ∧
    (Float.Model.pack (.add .binary64 b.toModel.unpack a.toModel.unpack)).unpack = _
  rw [show a.toModel.unpack = .infinity .positive from ha]
  obtain ⟨y, hy⟩ | hb := hb
  · obtain ⟨right, left⟩ := (stands_of_value? hy).add_infinity
    rw [right, left]
    exact ⟨unpack_pack_infinity _, unpack_pack_infinity _⟩
  · rw [show b.toModel.unpack = .infinity .positive from hb]
    exact ⟨unpack_pack_infinity _, unpack_pack_infinity _⟩

theorem NotNegative.add (ha : NotNegative a) (hb : NotNegative b) : NotNegative (a + b) := by
  obtain ⟨x, hx⟩ | infinite := ha
  · obtain ⟨y, hy⟩ | infinite := hb
    · exact (rounds_add hx hy).notNegative
    · exact .inr (infinite.add (.inl ⟨x, hx⟩)).2
  · exact .inr (infinite.add hb).1

theorem IsInfinite.value?_eq_none (h : IsInfinite a) : value? a = none := by
  rw [value?, h]
  rfl

theorem IsInfinite.not_isFinite (h : IsInfinite a) : ¬Quantity.isFinite a := by
  show ¬a.toModel.unpack.isFinite = true
  rw [show a.toModel.unpack = .infinity .positive from h]
  exact Bool.false_ne_true

theorem NotNegative.exists_value? (h : NotNegative a) (finite : Quantity.isFinite a) :
    ∃ x, value? a = some x :=
  h.resolve_right fun infinite => infinite.not_isFinite finite

/-- The parts of a sum that is a number are numbers that are not greater. -/
theorem le_value?_add (ha : NotNegative a) (hb : NotNegative b) (h : value? (a + b) = some r) :
    ∃ x y, value? a = some x ∧ value? b = some y ∧ x ≤ r ∧ y ≤ r := by
  obtain ⟨x, hx⟩ | infinite := ha
  · obtain ⟨y, hy⟩ | infinite := hb
    · have rounds := rounds_add hx hy
      have x_nonneg := value?_nonneg hx
      have y_nonneg := value?_nonneg hy
      exact ⟨x, y, hx, hy, rounds.ge (isNumber_of_value? hx) (by linarith) h,
        rounds.ge (isNumber_of_value? hy) (by linarith) h⟩
    · rw [(infinite.add (.inl ⟨x, hx⟩)).2.value?_eq_none] at h
      cases h
  · rw [(infinite.add hb).1.value?_eq_none] at h
    cases h

theorem notNegative_foldl (hs : NotNegative s) (hxs : ∀ a ∈ xs, NotNegative a) :
    NotNegative (xs.foldl (· + ·) s) := by
  induction xs generalizing s with
  | nil => exact hs
  | cons a xs ih =>
    rw [List.forall_mem_cons] at hxs
    exact ih (hs.add hxs.1) hxs.2

/-- What is added up to a number is a number that is not greater. -/
theorem le_value?_foldl (hs : NotNegative s) (hxs : ∀ a ∈ xs, NotNegative a)
    (h : value? (xs.foldl (· + ·) s) = some r) :
    ∀ a ∈ s :: xs, ∃ x, value? a = some x ∧ x ≤ r := by
  induction xs generalizing s with
  | nil =>
    intro a ha
    cases List.mem_singleton.mp ha
    exact ⟨r, h, le_refl r⟩
  | cons b xs ih =>
    rw [List.forall_mem_cons] at hxs
    obtain ⟨⟨t, ht, htr⟩, hrest⟩ := List.forall_mem_cons.mp (ih (hs.add hxs.1) hxs.2 h)
    obtain ⟨x, y, hx, hy, hxt, hyt⟩ := le_value?_add hs hxs.1 ht
    rw [List.forall_mem_cons, List.forall_mem_cons]
    exact ⟨⟨x, hx, hxt.trans htr⟩, ⟨y, hy, hyt.trans htr⟩, hrest⟩

theorem value?_sumStart : value? (-0.0) = some 0 := by decide +kernel

theorem notNegative_sum (hxs : ∀ a ∈ xs, NotNegative a) : NotNegative (Quantity.sum xs) :=
  notNegative_foldl (.inl ⟨0, value?_sumStart⟩) hxs

/-- **The parts of a sum are not greater than the sum.** -/
theorem le_value?_sum (hxs : ∀ a ∈ xs, NotNegative a) (h : value? (Quantity.sum xs) = some r) :
    ∀ a ∈ xs, ∃ x, value? a = some x ∧ x ≤ r :=
  fun a ha => le_value?_foldl (.inl ⟨0, value?_sumStart⟩) hxs h a (List.mem_cons_of_mem _ ha)

/-- A number that the first two parts reach is not greater than the sum. -/
theorem le_value?_sum_two (hxs : ∀ c ∈ xs, NotNegative c) (ha : value? a = some x)
    (hb : value? b = some y) (hz : IsNumber z) (le : z ≤ x + y)
    (h : value? (Quantity.sum (a :: b :: xs)) = some r) : z ≤ r := by
  -- the first part is added to nothing
  have start := rounds_add value?_sumStart ha
  rw [zero_add] at start
  obtain ⟨x', hx', le'⟩ := start.le (isNumber_of_value? ha) (le_refl x)
  have ge' := start.ge (isNumber_of_value? ha) (le_refl x) hx'
  have first : value? (-0.0 + a) = some x := by
    rw [← le_antisymm le' ge']
    exact hx'
  have two := rounds_add first hb
  obtain ⟨t, ht, htr⟩ := le_value?_foldl two.notNegative hxs h _ List.mem_cons_self
  exact (two.ge hz le ht).trans htr

/-- A number is nothing beside infinity. -/
theorem value?_div_infinite (ha : value? a = some x) (hb : IsInfinite b) :
    value? (a / b) = some 0 := by
  show number? (Float.Model.pack (.div .binary64 a.toModel.unpack b.toModel.unpack)).unpack = _
  obtain ⟨s, quotient⟩ := (stands_of_value? ha).div_infinity
  rw [show b.toModel.unpack = .infinity .positive from hb, quotient, unpack_pack_zero]
  rfl

end

end SeriesParallel.Binary64
