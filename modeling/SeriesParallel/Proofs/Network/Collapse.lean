import SeriesParallel.Proofs.Binary64.Floats
import SeriesParallel.Proofs.Network.Sound

/-!
# Network — groups that collapse

In binary64 the reciprocal of a resistance may be infinite, and so may a sum of
reciprocals. A group then presents no resistance at all, although none of its
branches is a short circuit. This is the only way in which the resistance of a
group is not a positive number once its network has been validated.
-/

namespace SeriesParallel

open Binary64

/-! ## One group -/

/-- Branches whose resistances are numbers other than zero. -/
def Conducting (bs : List (Chain Float)) : Prop :=
  ∀ b ∈ bs, ∃ y, value? b.resistance = some y ∧ 0 < y

/-- The sum of the reciprocals of the resistances of branches. -/
def totalConductance (bs : List (Chain Float)) : Float :=
  Quantity.sum (bs.map fun b => 1 / b.resistance)

namespace Conducting

variable {bs : List (Chain Float)}

theorem rounds_reciprocal {a : Float} {y : ℚ} (h : value? a = some y) (hy : 0 < y) :
    Rounds (1 / a) (1 / y) :=
  rounds_div value?_one h hy

theorem notNegative_reciprocals (h : Conducting bs) :
    ∀ g ∈ bs.map fun b => 1 / b.resistance, NotNegative g := by
  intro g hg
  obtain ⟨b, hb, rfl⟩ := List.mem_map.mp hg
  obtain ⟨y, hy, pos⟩ := h b hb
  exact (rounds_reciprocal hy pos).notNegative

/-- No reciprocal is below `2 ^ -1024`, as no number reaches `2 ^ 1024`. -/
theorem le_one_div {a : Float} {y : ℚ} (h : value? a = some y) (hy : 0 < y) :
    (2 : ℚ) ^ (-1024 : ℤ) ≤ 1 / y := by
  obtain ⟨m, e, canonical, rfl⟩ := isNumber_of_value? h
  rw [zpow_neg, ← one_div]
  exact one_div_le_one_div_of_le hy canonical.lt_top.le

theorem le_reciprocal {a : Float} {y g : ℚ} (h : value? a = some y) (hy : 0 < y)
    (hg : value? (1 / a) = some g) : (2 : ℚ) ^ (-1024 : ℤ) ≤ g :=
  (rounds_reciprocal h hy).ge (isNumber_two_zpow (by norm_num) (by norm_num)) (le_one_div h hy) hg

/-- The reciprocals of two branches add up to `2 ^ -1023` or more. -/
theorem le_totalConductance (h : Conducting bs) (two : 2 ≤ bs.length) {s : ℚ}
    (hs : value? (totalConductance bs) = some s) : (2 : ℚ) ^ (-1023 : ℤ) ≤ s := by
  have notNegative := h.notNegative_reciprocals
  have parts := le_value?_sum notNegative hs
  match bs, two with
  | b :: b' :: bs, _ =>
    simp only [List.map_cons, List.forall_mem_cons] at notNegative parts
    obtain ⟨⟨g, hg, -⟩, ⟨g', hg', -⟩, -⟩ := parts
    obtain ⟨y, hy, pos⟩ := h b List.mem_cons_self
    obtain ⟨y', hy', pos'⟩ := h b' (List.mem_cons_of_mem _ List.mem_cons_self)
    have le := le_reciprocal hy pos hg
    have le' := le_reciprocal hy' pos' hg'
    have double : (2 : ℚ) ^ (-1023 : ℤ) = 2 ^ (-1024 : ℤ) + 2 ^ (-1024 : ℤ) := by
      rw [← two_mul, ← zpow_one_add₀ two_ne_zero]
      rfl
    refine le_value?_sum_two notNegative.2.2 hg hg'
      (isNumber_two_zpow (by norm_num) (by norm_num)) ?_ hs
    linarith

/-- **The resistance of a group** is positive, or zero beside an infinite
conductance. -/
theorem resistance (h : Conducting bs) (two : 2 ≤ bs.length) :
    (IsInfinite (totalConductance bs) ∧ value? (1 / totalConductance bs) = some 0) ∨
      ∃ s r, value? (totalConductance bs) = some s ∧ 0 < s ∧
        value? (1 / totalConductance bs) = some r ∧ 0 < r ∧ r ≤ 2 * (1 / s) := by
  obtain ⟨s, hs⟩ | infinite := notNegative_sum h.notNegative_reciprocals
  · have le : (2 : ℚ) ^ (-1023 : ℤ) ≤ s := h.le_totalConductance two hs
    have pos : 0 < s := lt_of_lt_of_le (by positivity) le
    have rounds : Rounds (1 / totalConductance bs) (1 / s) := rounds_reciprocal hs pos
    have top : 1 / s ≤ (2 : ℚ) ^ (1023 : ℤ) := by
      rw [div_le_iff₀ pos]
      have := mul_le_mul_of_nonneg_left le (zpow_nonneg (zero_le_two (α := ℚ)) 1023)
      rwa [← zpow_add₀ two_ne_zero] at this
    obtain ⟨r, hr, -⟩ := rounds.le (isNumber_two_zpow (by norm_num) (by norm_num)) top
    refine .inr ⟨s, r, hs, pos, hr, ?_, rounds.le_two_mul (by positivity) hr⟩
    exact lt_of_lt_of_le (by positivity) (le_reciprocal hs pos hr)
  · exact .inl ⟨infinite, value?_div_infinite value?_one infinite⟩

/-- The resistance of a group is at most about that of each branch. -/
theorem resistance_le (h : Conducting bs) (two : 2 ≤ bs.length) {r y : ℚ}
    (hr : value? (1 / totalConductance bs) = some r) {b : Chain Float} (hb : b ∈ bs)
    (hy : value? b.resistance = some y) : r ≤ 4 * y := by
  obtain ⟨y', hy', pos⟩ := h b hb
  cases hy.symm.trans hy'
  obtain ⟨-, hzero⟩ | ⟨s, r', hs, -, hr', -, r_le⟩ := h.resistance two
  · cases hr.symm.trans hzero
    positivity
  · cases hr.symm.trans hr'
    obtain ⟨g, hg, g_le⟩ := le_value?_sum h.notNegative_reciprocals hs (1 / b.resistance)
      (List.mem_map_of_mem hb)
    have g_pos : 0 < g := lt_of_lt_of_le (by positivity) (le_reciprocal hy pos hg)
    have subnormal : (2 : ℚ) ^ (-1074 : ℤ) ≤ 1 / y :=
      (zpow_le_zpow_right₀ one_le_two (by norm_num)).trans (le_one_div hy pos)
    have half : 1 / y ≤ 2 * g := (rounds_reciprocal hy pos).le_two_mul' subnormal hg
    calc r ≤ 2 * (1 / s) := r_le
      _ ≤ 2 * (1 / g) := by gcongr
      _ ≤ 2 * (2 * y) := by
        gcongr
        rw [div_le_iff₀ pos] at half
        rw [div_le_iff₀ g_pos]
        linarith
      _ = 4 * y := by ring

end Conducting

/-! ## Sound networks -/

namespace Chain.Sound

theorem link {R : Type} [Quantity R] {e : Element R} {c : Chain R} (h : (link e c).Sound) :
    (last e).Sound ∧ c.Sound := by
  rw [Sound, components_link] at h
  exact List.forall_mem_append.mp h

theorem branch {R : Type} [Quantity R] {l : String} {v : Reading R} {bs : List (Chain R)}
    {b : Chain R} (h : (last (.group l v bs)).Sound) (hb : b ∈ bs) : b.Sound :=
  fun e he => h e (mem_components_group hb he)

theorem group {R : Type} [Quantity R] {l : String} {v : Reading R} {bs : List (Chain R)}
    (h : (last (.group l v bs)).Sound) : (Element.group l v bs).Sound :=
  h _ (by simp)

/-- A branch of a sound group that does not have a negative resistance has a
number other than zero. -/
theorem conducting {l : String} {v : Reading Float} {bs : List (Chain Float)}
    (h : (Element.group l v bs).Sound) (notNegative : ∀ b ∈ bs, NotNegative b.resistance) :
    Conducting bs := by
  intro b hb
  obtain ⟨finite, ne_zero⟩ := h.2 b hb
  obtain ⟨y, hy⟩ := (notNegative b hb).exists_value? finite
  exact ⟨y, hy, pos_of_ne_zero hy ne_zero⟩

/-- **No element of a sound network has a negative resistance.** -/
theorem notNegative_resistances {c : Chain Float} (h : c.Sound) :
    ∀ r ∈ c.resistances, NotNegative r := by
  induction c using Chain.inductionOn with
  | resistor l v r =>
    intro r' hr'
    cases List.mem_singleton.mp hr'
    obtain ⟨finite, not_neg⟩ := h (.resistor l v r) (by simp)
    exact .inl (exists_value? finite not_neg)
  | group l v bs ih =>
    intro r hr
    cases List.mem_singleton.mp hr
    have conducting := conducting h.group fun b hb => notNegative_sum (ih b hb (h.branch hb))
    rw [Element.resistance_group]
    obtain ⟨-, hzero⟩ | ⟨s, r, -, -, hr, -⟩ := conducting.resistance h.group.1
    · exact .inl ⟨0, hzero⟩
    · exact .inl ⟨r, hr⟩
  | link e c he hc =>
    rw [resistances, List.forall_mem_cons]
    exact ⟨he h.link.1 _ List.mem_cons_self, hc h.link.2⟩

theorem notNegative_resistance {c : Chain Float} (h : c.Sound) : NotNegative c.resistance :=
  notNegative_sum h.notNegative_resistances

/-- The branches of a sound group conduct. -/
theorem conducting_branches {l : String} {v : Reading Float} {bs : List (Chain Float)}
    (h : (last (.group l v bs)).Sound) : Conducting bs :=
  conducting h.group fun _ hb => (h.branch hb).notNegative_resistance

end Chain.Sound

/-- **When a group collapses.** In a network that validation accepts, the
resistance of every group, at every depth, is a number that is not negative. It
is greater than zero exactly when the sum of the reciprocals of its branches is
finite. -/
theorem validate_group_resistance {c : Chain Float} (h : c.validate = .ok ()) :
    ∀ l v bs, Element.group l v bs ∈ c.components →
      Quantity.isFinite (Element.group l v bs).resistance ∧
        ¬(Element.group l v bs).resistance < 0 ∧
        (0 < (Element.group l v bs).resistance ↔
          Quantity.isFinite (Quantity.sum (bs.map fun b => 1 / b.resistance))) := by
  intro l v bs he
  have sound : (Chain.last (.group l v bs)).Sound := fun x hx =>
    Chain.validate_eq_ok_iff.mp h x (Chain.mem_components_of_mem_last he hx)
  have two : 2 ≤ bs.length := sound.group.1
  rw [Element.resistance_group]
  obtain ⟨infinite, hzero⟩ | ⟨s, r, hs, -, hr, pos, -⟩ := sound.conducting_branches.resistance two
  · refine ⟨isFinite_of_value? hzero, not_lt_zero hzero, fun hlt => ?_, fun finite => ?_⟩
    · exact absurd ((zero_lt_iff hzero).mp hlt) (lt_irrefl 0)
    · exact absurd finite infinite.not_isFinite
  · exact ⟨isFinite_of_value? hr, not_lt_zero hr, fun _ => isFinite_of_value? hs,
      fun _ => (zero_lt_iff hr).mpr pos⟩

/-- A group of a branch so close to zero that its reciprocal is infinite, beside
a branch of 1 Ω. -/
def vanishingBranch : Chain Float :=
  .last (.group "" .blank [.last (.resistor "" .blank 1e-310), .last (.resistor "" .blank 1.0)])

theorem validate_vanishingBranch : vanishingBranch.validate = .ok () := by
  have accepted : vanishingBranch.validate.isOk := by decide +kernel
  obtain ⟨⟨⟩, h⟩ := exists_eq_ok_of_isOk accepted
  exact h

theorem head_mem_vanishingBranch : vanishingBranch.head ∈ vanishingBranch.components := by
  rw [vanishingBranch, Chain.components_group]
  exact List.mem_cons_self

/-- The resistance of the group is a number, which is not negative. -/
theorem validate_group_resistance_vanishingBranch :
    vanishingBranch.validate = .ok () ∧ Quantity.isFinite vanishingBranch.head.resistance ∧
      ¬vanishingBranch.head.resistance < 0 := by
  have group := validate_group_resistance validate_vanishingBranch _ _ _ head_mem_vanishingBranch
  exact ⟨validate_vanishingBranch, group.1, group.2.1⟩

/-- Validation accepts a network with a group that collapses. -/
theorem exists_validate_collapsed : ∃ c : Chain Float, c.validate = .ok () ∧
    ∃ e ∈ c.components, e.isResistor = false ∧ e.resistance == 0 :=
  ⟨vanishingBranch, validate_vanishingBranch, vanishingBranch.head, head_mem_vanishingBranch,
    by decide, by decide +kernel⟩

end SeriesParallel
