import Mathlib.Algebra.BigOperators.Group.List.Basic
import Mathlib.Algebra.Order.BigOperators.Group.List
import Mathlib.Algebra.Order.Field.Rat
import Mathlib.Tactic.Linarith
import SeriesParallel.Proofs.Network.Readings
import SeriesParallel.Proofs.Network.Sound

/-!
# Network — resistances over the rationals

Over exact rationals a sum is the sum of the list, so the resistances of chains
and groups obey the laws of the field. `Chain.Solvable` names the networks with
a meaning: no negative resistance, no group of one branch and no branch that is
a short circuit. They are the networks that validation accepts. Where only the
last condition matters, a network is `Chain.Unshorted`.
-/

namespace SeriesParallel

/-! ## Sums -/

theorem Quantity.sum_eq_sum (xs : List Rat) : Quantity.sum xs = xs.sum := List.sum_eq_foldl.symm

namespace Chain

@[simp] theorem resistance_last (e : Element Rat) : (last e).resistance = e.resistance := by
  simp [resistance, resistances, Quantity.sum_eq_sum]

@[simp] theorem resistance_link (e : Element Rat) (c : Chain Rat) :
    (link e c).resistance = e.resistance + c.resistance := by
  simp [resistance, resistances, Quantity.sum_eq_sum]

theorem resistance_eq_sum (c : Chain Rat) :
    c.resistance = (c.elements.map Element.resistance).sum := by
  rw [resistance, resistances_eq_map, Quantity.sum_eq_sum]

end Chain

/-- The conductance of branches side by side. -/
def conductance (bs : List (Chain Rat)) : Rat := (bs.map fun b => 1 / b.resistance).sum

theorem conductance_cons (b : Chain Rat) (bs : List (Chain Rat)) :
    conductance (b :: bs) = 1 / b.resistance + conductance bs := by
  rw [conductance, conductance, List.map_cons, List.sum_cons]

theorem Element.resistance_group_eq (l : String) (v : Reading Rat) (bs : List (Chain Rat)) :
    (Element.group l v bs).resistance = 1 / conductance bs := by
  rw [Element.resistance_group, Quantity.sum_eq_sum, conductance]

/-- Branches that have a resistance conduct. -/
theorem conductance_pos {bs : List (Chain Rat)} (nonempty : bs ≠ [])
    (pos : ∀ b ∈ bs, 0 < b.resistance) : 0 < conductance bs := by
  refine List.sum_pos _ ?_ (by simpa using nonempty)
  intro x hx
  obtain ⟨b, hb, rfl⟩ := List.mem_map.mp hx
  exact one_div_pos.mpr (pos b hb)

/-- Without negative resistors there are no negative resistances. -/
theorem Chain.resistance_nonneg {c : Chain Rat}
    (h : ∀ l v r, Element.resistor l v r ∈ c.components → 0 ≤ r) : 0 ≤ c.resistance := by
  induction c using Chain.inductionOn with
  | resistor l v r =>
    rw [resistance_last]
    exact h l v r (by simp)
  | group l v bs ih =>
    rw [resistance_last, Element.resistance_group_eq]
    refine one_div_nonneg.mpr (List.sum_nonneg ?_)
    intro x hx
    obtain ⟨b, hb, rfl⟩ := List.mem_map.mp hx
    exact one_div_nonneg.mpr (ih b hb fun l v r hr => h l v r (mem_components_group hb hr))
  | link e c he hc =>
    simp only [components_link, List.mem_append] at h
    rw [resistance_link, ← resistance_last]
    exact add_nonneg (he fun l v r hr => h l v r (.inl hr)) (hc fun l v r hr => h l v r (.inr hr))

/-! ## Networks without short circuits -/

/-- No branch of a group is a short circuit, at any depth. -/
def Chain.Unshorted (c : Chain Rat) : Prop :=
  ∀ l v bs, Element.group l v bs ∈ c.components → ∀ b ∈ bs, b.resistance ≠ 0

namespace Chain.Unshorted

/-- Part of a network without short circuits has none. -/
theorem part {c d : Chain Rat} (h : c.Unshorted) (hpart : d.components ⊆ c.components) :
    d.Unshorted := fun l v bs he => h l v bs (hpart he)

theorem link {e : Element Rat} {c : Chain Rat} (h : (Chain.link e c).Unshorted) :
    (Chain.last e).Unshorted ∧ c.Unshorted :=
  ⟨h.part (components_last_subset e c), h.part (components_rest_subset e c)⟩

/-- A branch of a network without short circuits has a resistance, and so have
the branches inside. -/
theorem branch {l : String} {v : Reading Rat} {bs : List (Chain Rat)} {b : Chain Rat}
    (h : (Chain.last (.group l v bs)).Unshorted) (hb : b ∈ bs) :
    b.resistance ≠ 0 ∧ b.Unshorted := by
  have self : Element.group l v bs ∈ (Chain.last (.group l v bs)).components := by simp
  exact ⟨h l v bs self b hb, h.part fun _ => mem_components_group hb⟩

end Chain.Unshorted

/-! ## Solvable networks -/

/-- A network that can be solved: resistances are not negative, groups have at
least two branches, and every branch has a resistance. -/
structure Chain.Solvable (c : Chain Rat) : Prop where
  resistance_nonneg : ∀ l v r, Element.resistor l v r ∈ c.components → 0 ≤ r
  two_branches : ∀ l v bs, Element.group l v bs ∈ c.components → 2 ≤ bs.length
  branch_pos : ∀ l v bs, Element.group l v bs ∈ c.components → ∀ b ∈ bs, 0 < b.resistance

namespace Chain.Solvable

/-- Part of a solvable network is solvable. -/
theorem part {c d : Chain Rat} (h : c.Solvable) (hpart : d.components ⊆ c.components) :
    d.Solvable where
  resistance_nonneg l v r he := h.resistance_nonneg l v r (hpart he)
  two_branches l v bs he := h.two_branches l v bs (hpart he)
  branch_pos l v bs he := h.branch_pos l v bs (hpart he)

theorem link {e : Element Rat} {c : Chain Rat} (h : (Chain.link e c).Solvable) :
    (Chain.last e).Solvable ∧ c.Solvable :=
  ⟨h.part (components_last_subset e c), h.part (components_rest_subset e c)⟩

/-- The branches of a group of a solvable network are solvable. -/
theorem branch {l : String} {v : Reading Rat} {bs : List (Chain Rat)} {b : Chain Rat}
    (h : (Chain.last (.group l v bs)).Solvable) (hb : b ∈ bs) : b.Solvable :=
  h.part fun _ => mem_components_group hb

/-- An element of a solvable network is solvable on its own. -/
theorem of_mem {c : Chain Rat} {e : Element Rat} (h : c.Solvable) (he : e ∈ c.components) :
    (Chain.last e).Solvable := h.part fun _ => mem_components_of_mem_last he

theorem unshorted {c : Chain Rat} (h : c.Solvable) : c.Unshorted :=
  fun l v bs he b hb => (h.branch_pos l v bs he b hb).ne'

/-- The branches of a solvable group conduct. -/
theorem conductance_pos {l : String} {v : Reading Rat} {bs : List (Chain Rat)}
    (h : (Chain.last (.group l v bs)).Solvable) : 0 < conductance bs := by
  have two : 2 ≤ bs.length := h.two_branches l v bs (by simp)
  have nonempty : bs ≠ [] := List.ne_nil_of_length_pos (by omega)
  exact SeriesParallel.conductance_pos nonempty (h.branch_pos l v bs (by simp))

/-- Whether a network can be solved does not depend on its readings. -/
theorem of_unsolved_eq {c d : Chain Rat} (hc : c.Solvable) (h : d.unsolved = c.unsolved) :
    d.Solvable := by
  have component {e : Element Rat} (he : e ∈ d.components) :
      ∃ f ∈ c.components, f.unsolved = e.unsolved := by
    have : e.unsolved ∈ c.unsolved.components := by
      rw [← h, components_unsolved]
      exact List.mem_map_of_mem he
    simpa [components_unsolved] using this
  -- a group of one network is a group of the other, with the same branches
  have group {l v bs} (he : Element.group l v bs ∈ d.components) :
      ∃ l' v' bs', Element.group l' v' bs' ∈ c.components ∧
        bs'.map Chain.unsolved = bs.map Chain.unsolved := by
    obtain ⟨f, hf, heq⟩ := component he
    cases f with
    | resistor l' v' r' => cases heq
    | group l' v' bs' =>
      simp only [Element.unsolved, unsolvedBranches_eq_map, Element.group.injEq] at heq
      exact ⟨l', v', bs', hf, heq.2.2⟩
  refine ⟨fun l v r he => ?_, fun l v bs he => ?_, fun l v bs he b hb => ?_⟩
  · obtain ⟨f, hf, heq⟩ := component he
    cases f with
    | resistor l' v' r' =>
      simp only [Element.unsolved, Element.resistor.injEq] at heq
      exact heq.2.2 ▸ hc.resistance_nonneg l' v' r' hf
    | group l' v' bs' => cases heq
  · obtain ⟨l', v', bs', hf, heq⟩ := group he
    have := congrArg List.length heq
    simp only [List.length_map] at this
    exact this ▸ hc.two_branches l' v' bs' hf
  · obtain ⟨l', v', bs', hf, heq⟩ := group he
    have : b.unsolved ∈ bs'.map Chain.unsolved := heq ▸ List.mem_map_of_mem hb
    obtain ⟨b', hb', hb''⟩ := List.mem_map.mp this
    rw [← resistance_unsolved, ← hb'', resistance_unsolved]
    exact hc.branch_pos l' v' bs' hf b' hb'

end Chain.Solvable

/-! ## Sound networks -/

/-- A sound network can be solved. -/
theorem Chain.Sound.solvable {c : Chain Rat} (h : c.Sound) : c.Solvable := by
  have resistors : ∀ l v r, Element.resistor l v r ∈ c.components → 0 ≤ r :=
    fun l v r he => not_lt.mp (h _ he).2
  refine ⟨resistors, fun l v bs he => (h _ he).1, fun l v bs he b hb => ?_⟩
  have nonneg : 0 ≤ b.resistance := resistance_nonneg fun l' v' r hr =>
    resistors l' v' r (mem_components_of_mem_branches he hb hr)
  have ne_zero : b.resistance ≠ 0 := by
    have := ((h _ he).2 b hb).2
    simpa using this
  exact lt_of_le_of_ne nonneg ne_zero.symm

theorem Chain.Solvable.sound {c : Chain Rat} (h : c.Solvable) : c.Sound := by
  intro e he
  cases e with
  | resistor l v r => exact ⟨rfl, not_lt.mpr (h.resistance_nonneg l v r he)⟩
  | group l v bs =>
    refine ⟨h.two_branches l v bs he, fun b hb => ⟨rfl, ?_⟩⟩
    exact beq_false_of_ne (h.branch_pos l v bs he b hb).ne'

/-- **Validation accepts exactly the networks that can be solved.** -/
theorem Chain.validate_eq_ok_iff_solvable {c : Chain Rat} :
    c.validate = .ok () ↔ c.Solvable :=
  validate_eq_ok_iff.trans ⟨Sound.solvable, Solvable.sound⟩

end SeriesParallel
