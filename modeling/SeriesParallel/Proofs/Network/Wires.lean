import Mathlib.Algebra.Field.Rat
import Mathlib.Algebra.Order.BigOperators.Group.List
import Mathlib.Algebra.Order.Ring.NNRat
import Mathlib.Algebra.Order.Ring.WithTop
import SeriesParallel.Proofs.Network.Sound

/-!
# Network — wires

A **wire** is a chain of zero-ohm resistors. Validation looks for short
circuits in the numbers: a branch of resistance zero is refused. Over the
non-negative rationals with infinity this is a matter of structure only. A
group collapses exactly when a branch of it does, so whatever has resistance
zero is a wire or has one for a branch somewhere inside.
-/

namespace SeriesParallel

/-! ## Rationals with infinity -/

/-- The rationals that are not negative, and infinity. -/
abbrev ENNRat := WithTop ℚ≥0

namespace ENNRat

/-- The reciprocal. Zero and infinity are each other's. -/
def reciprocal : ENNRat → ENNRat
  | ⊤ => 0
  | (r : ℚ≥0) => if r = 0 then ⊤ else (r⁻¹ : ℚ≥0)

/-- Exact arithmetic in which only infinity is not finite. -/
instance : Quantity ENNRat where
  zero := 0
  one := 1
  div x y := x * y.reciprocal
  sumStart := 0
  isFinite x := decide (x ≠ ⊤)
  decidableLT := inferInstance

theorem isFinite_iff {x : ENNRat} : Quantity.isFinite x ↔ x ≠ ⊤ := decide_eq_true_iff

theorem sum_eq_sum (xs : List ENNRat) : Quantity.sum xs = xs.sum := List.sum_eq_foldl.symm

theorem sum_eq_top_iff {xs : List ENNRat} : xs.sum = ⊤ ↔ ⊤ ∈ xs := by
  induction xs with
  | nil => simp
  | cons x xs ih => rw [List.sum_cons, WithTop.add_eq_top, ih, List.mem_cons, eq_comm]

theorem one_div_eq (x : ENNRat) : 1 / x = x.reciprocal := one_mul _

theorem one_div_eq_top_iff {x : ENNRat} : 1 / x = ⊤ ↔ x = 0 := by
  rw [one_div_eq]
  cases x using WithTop.recTopCoe with
  | top => simp [reciprocal]
  | coe r => by_cases hr : r = 0 <;> simp [reciprocal, hr]

theorem one_div_eq_zero_iff {x : ENNRat} : 1 / x = 0 ↔ x = ⊤ := by
  rw [one_div_eq]
  cases x using WithTop.recTopCoe with
  | top => simp [reciprocal]
  | coe r => by_cases hr : r = 0 <;> simp [reciprocal, hr]

end ENNRat

/-! ## What makes a resistance zero or infinite -/

theorem ENNRat.resistance_last (e : Element ENNRat) : (Chain.last e).resistance = e.resistance := by
  simp [Chain.resistance, Chain.resistances, sum_eq_sum]

theorem ENNRat.resistance_link (e : Element ENNRat) (c : Chain ENNRat) :
    (Chain.link e c).resistance = e.resistance + c.resistance := by
  simp [Chain.resistance, Chain.resistances, sum_eq_sum]

/-- **A group collapses exactly when a branch does.** -/
theorem Element.resistance_group_eq_zero_iff {l : String} {v : Reading ENNRat}
    {bs : List (Chain ENNRat)} :
    (Element.group l v bs).resistance = 0 ↔ ∃ b ∈ bs, b.resistance = 0 := by
  rw [resistance_group, ENNRat.sum_eq_sum, ENNRat.one_div_eq_zero_iff, ENNRat.sum_eq_top_iff,
    List.mem_map]
  simp only [ENNRat.one_div_eq_top_iff]

theorem Element.resistance_group_eq_top_iff {l : String} {v : Reading ENNRat}
    {bs : List (Chain ENNRat)} :
    (Element.group l v bs).resistance = ⊤ ↔ ∀ b ∈ bs, b.resistance = ⊤ := by
  rw [resistance_group, ENNRat.sum_eq_sum, ENNRat.one_div_eq_top_iff, List.sum_eq_zero_iff,
    List.forall_mem_map]
  simp only [ENNRat.one_div_eq_zero_iff]

/-! ## Wires -/

namespace Chain

/-- Every element is a resistor of zero ohms. -/
def IsWire (c : Chain ENNRat) : Prop := ∀ e ∈ c.elements, ∃ l v, e = .resistor l v 0

theorem isWire_last {e : Element ENNRat} : (last e).IsWire ↔ ∃ l v, e = .resistor l v 0 :=
  List.forall_mem_singleton

theorem isWire_link {e : Element ENNRat} {c : Chain ENNRat} :
    (link e c).IsWire ↔ (∃ l v, e = .resistor l v 0) ∧ c.IsWire := List.forall_mem_cons

theorem IsWire.resistance_eq_zero {c : Chain ENNRat} (h : c.IsWire) : c.resistance = 0 := by
  match c with
  | last e =>
    obtain ⟨l, v, rfl⟩ := isWire_last.mp h
    exact ENNRat.resistance_last _
  | link e c =>
    obtain ⟨⟨l, v, rfl⟩, rest⟩ := isWire_link.mp h
    rw [ENNRat.resistance_link, rest.resistance_eq_zero, add_zero, Element.resistance]

end Chain

/-- A resistor whose resistance is finite, or a group of branches none of which
is a wire. -/
def Element.Unwired : Element ENNRat → Prop
  | .resistor _ _ r => r ≠ ⊤
  | .group _ _ bs => bs ≠ [] ∧ ∀ b ∈ bs, ¬b.IsWire

/-- **Where no branch is a wire, a chain without resistance is a wire itself**,
and no chain is without conductance. -/
theorem Chain.resistance_of_unwired {c : Chain ENNRat} (h : ∀ e ∈ c.components, e.Unwired) :
    c.resistance ≠ ⊤ ∧ (c.resistance = 0 → c.IsWire) := by
  induction c using Chain.inductionOn with
  | resistor l v r =>
    have finite : r ≠ ⊤ := h (.resistor l v r) (by simp)
    rw [ENNRat.resistance_last]
    exact ⟨finite, fun zero => isWire_last.mpr ⟨l, v, congrArg _ zero⟩⟩
  | group l v bs ih =>
    obtain ⟨nonempty, not_wire⟩ := h (.group l v bs) (by simp)
    have inside (b) (hb : b ∈ bs) := ih b hb fun e he => h e (mem_components_group hb he)
    rw [ENNRat.resistance_last]
    refine ⟨fun infinite => ?_, fun zero => ?_⟩
    · obtain ⟨b, hb⟩ := List.exists_mem_of_ne_nil bs nonempty
      exact absurd (Element.resistance_group_eq_top_iff.mp infinite b hb) (inside b hb).1
    · obtain ⟨b, hb, collapsed⟩ := Element.resistance_group_eq_zero_iff.mp zero
      exact absurd ((inside b hb).2 collapsed) (not_wire b hb)
  | link e c he hc =>
    rw [components_link, List.forall_mem_append] at h
    obtain ⟨head_finite, head_wire⟩ := he h.1
    obtain ⟨rest_finite, rest_wire⟩ := hc h.2
    rw [ENNRat.resistance_link, ← ENNRat.resistance_last]
    refine ⟨WithTop.add_ne_top.mpr ⟨head_finite, rest_finite⟩, fun zero => ?_⟩
    obtain ⟨head, rest⟩ := add_eq_zero.mp zero
    exact isWire_link.mpr ⟨isWire_last.mp (head_wire head), rest_wire rest⟩

/-- **Short circuits are found exactly**: over exact arithmetic with infinity,
a network of finite resistances and of groups with at least two branches is
accepted if and only if no branch, at any depth, is made of zero-ohm resistors
only. -/
theorem validate_eq_ok_iff_no_wire (c : Chain ENNRat)
    (finite : ∀ l v r, Element.resistor l v r ∈ c.components → r ≠ ⊤)
    (two_branches : ∀ l v bs, Element.group l v bs ∈ c.components → 2 ≤ bs.length) :
    c.validate = .ok () ↔
      ∀ l v bs, Element.group l v bs ∈ c.components → ∀ b ∈ bs, ¬b.IsWire := by
  rw [Chain.validate_eq_ok_iff]
  constructor
  · intro sound l v bs he b hb wire
    have zero := ((sound _ he).2 b hb).2
    simp [wire.resistance_eq_zero] at zero
  · intro not_wire
    have unwired : ∀ e ∈ c.components, e.Unwired := by
      intro e he
      cases e with
      | resistor l v r => exact finite l v r he
      | group l v bs =>
        have two := two_branches l v bs he
        exact ⟨List.ne_nil_of_length_pos (by omega), not_wire l v bs he⟩
    intro e he
    cases e with
    | resistor l v r => exact ⟨ENNRat.isFinite_iff.mpr (finite l v r he), not_lt_bot⟩
    | group l v bs =>
      refine ⟨two_branches l v bs he, fun b hb => ?_⟩
      obtain ⟨branch_finite, branch_wire⟩ := Chain.resistance_of_unwired fun f hf =>
        unwired f (Chain.mem_components_of_mem_branches he hb hf)
      have resists : b.resistance ≠ 0 := fun zero => not_wire l v bs he b hb (branch_wire zero)
      exact ⟨ENNRat.isFinite_iff.mpr branch_finite, beq_false_of_ne resists⟩

/-- Zero ohms in front of a resistor are not a wire. -/
example : (Chain.last (.parallel
    [.link (.ofResistance 0) (.last (.ofResistance 2)),
      .last (.ofResistance (2 : ENNRat))])).validate.isOk := by
  decide +kernel

/-- A wire beside a resistor, in a group that is a branch itself: the group has
no resistance, so the outer group is without resistance as well. -/
def buriedWire : Chain ENNRat :=
  .link (.ofResistance 3) (.last (.parallel
    [.last (.parallel
      [.link (.ofResistance 0) (.last (.ofResistance 0)), .last (.ofResistance 5)]),
      .last (.ofResistance 7)]))

theorem validate_eq_ok_iff_no_wire_buriedWire :
    (∀ l v r, Element.resistor l v r ∈ buriedWire.components → r ≠ ⊤) ∧
      (∀ l v bs, Element.group l v bs ∈ buriedWire.components → 2 ≤ bs.length) ∧
      buriedWire.validate ≠ .ok () := by
  have finite : ∀ l v r, Element.resistor l v r ∈ buriedWire.components → r ≠ ⊤ := by
    simp only [buriedWire, Element.ofResistance, Element.parallel, Chain.components_link,
      Chain.components_resistor, Chain.components_group, List.mem_append, List.mem_cons,
      List.flatMap_cons, List.flatMap_nil, List.not_mem_nil, reduceCtorEq,
      Element.resistor.injEq, false_or, or_false]
    intro l v r hmem
    rcases hmem with ⟨-, -, rfl⟩ | ((⟨-, -, rfl⟩ | ⟨-, -, rfl⟩) | ⟨-, -, rfl⟩) | ⟨-, -, rfl⟩ <;>
      decide
  have two_branches : ∀ l v bs, Element.group l v bs ∈ buriedWire.components → 2 ≤ bs.length := by
    simp only [buriedWire, Element.ofResistance, Element.parallel, Chain.components_link,
      Chain.components_resistor, Chain.components_group, List.mem_append, List.mem_cons,
      List.flatMap_cons, List.flatMap_nil, List.not_mem_nil, reduceCtorEq,
      Element.group.injEq, false_or, or_false]
    intro l v bs hmem
    rcases hmem with ⟨-, -, rfl⟩ | ⟨-, -, rfl⟩ <;> decide
  have wire : Chain.IsWire (.link (.ofResistance 0) (.last (.ofResistance 0))) :=
    Chain.isWire_link.mpr ⟨⟨_, _, rfl⟩, Chain.isWire_last.mpr ⟨_, _, rfl⟩⟩
  refine ⟨finite, two_branches, fun accepted => ?_⟩
  have no_wire := (validate_eq_ok_iff_no_wire buriedWire finite two_branches).mp accepted
  exact no_wire "" .blank [_, .last (.ofResistance 5)] (by simp [buriedWire, Element.parallel])
    _ List.mem_cons_self wire

end SeriesParallel
