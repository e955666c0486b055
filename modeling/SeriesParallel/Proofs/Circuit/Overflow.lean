import SeriesParallel.Proofs.Circuit.Invariant
import SeriesParallel.Proofs.Network.Collapse

/-!
# Circuit — room below infinity

The totals of a circuit are finite, or it is not built. The reading of an
element is computed anew, with its own roundings, and may be infinite where the
totals are just below infinity. It is finite when the totals leave some room,
and more room for each level of groups: from the chain that a group is in to its
branches, rounding adds a bounded factor to currents, voltages and powers.
-/

namespace SeriesParallel

open Binary64

/-- Every quantity of a reading is a number. -/
structure Reading.IsFinite {R : Type} [Quantity R] (v : Reading R) : Prop where
  voltage : Quantity.isFinite v.voltage
  current : Quantity.isFinite v.current
  power : Quantity.isFinite v.power

/-! ## Levels of groups -/

section

variable {R : Type}

mutual

/-- How many groups an element has inside one another. -/
def Element.depth : Element R → Nat
  | .resistor .. => 0
  | .group _ _ bs => branchDepth bs + 1

/-- How many groups a chain has inside one another. -/
def Chain.depth : Chain R → Nat
  | .last e => e.depth
  | .link e c => max e.depth c.depth

/-- How many groups branches have inside one another. -/
def branchDepth : List (Chain R) → Nat
  | [] => 0
  | b :: bs => max b.depth (branchDepth bs)

end

theorem depth_le_branchDepth {bs : List (Chain R)} {b : Chain R} (hb : b ∈ bs) :
    b.depth ≤ branchDepth bs := by
  induction bs with
  | nil => cases hb
  | cons a bs ih =>
    rw [branchDepth]
    rcases List.mem_cons.mp hb with rfl | hb
    · exact Nat.le_max_left _ _
    · exact (ih hb).trans (Nat.le_max_right _ _)

theorem branchDepth_eq_of_map {bs : List (Chain R)} {f : Chain R → Chain R}
    (h : ∀ b ∈ bs, (f b).depth = b.depth) : branchDepth (bs.map f) = branchDepth bs := by
  induction bs with
  | nil => rfl
  | cons b bs ih =>
    rw [List.forall_mem_cons] at h
    rw [List.map_cons, branchDepth, branchDepth, h.1, ih h.2]

theorem Chain.depth_propagate [Quantity R] (c : Chain R) (current : R) :
    (c.propagate current).depth = c.depth := by
  induction c using Chain.inductionOn generalizing current with
  | resistor l v r => rfl
  | group l v bs ih =>
    simp only [propagate, Element.propagate, propagateBranches_eq_map, depth, Element.depth]
    rw [branchDepth_eq_of_map fun b hb => ih b hb _]
  | link e c he hc =>
    have head := he current
    simp only [propagate, depth] at head
    simp only [propagate, depth, head, hc]

end

/-! ## One element -/

/-- A current through a resistance, with its voltage and power, is within `2 ^ k`. -/
structure Within (k : ℤ) (current resistance : ℚ) : Prop where
  current_le : current ≤ 2 ^ k
  voltage_le : current * resistance ≤ 2 ^ k
  power_le : current * (current * resistance) ≤ 2 ^ k

namespace Within

variable {k : ℤ} {x ρ y : ℚ}

theorem mono (h : Within k x ρ) (hx : 0 ≤ x) (hy : y ≤ ρ) : Within k x y where
  current_le := h.current_le
  voltage_le := (mul_le_mul_of_nonneg_left hy hx).trans h.voltage_le
  power_le := (mul_le_mul_of_nonneg_left (mul_le_mul_of_nonneg_left hy hx) hx).trans h.power_le

/-- **The reading of an element** that is within range is finite. -/
theorem reading {i r : Float} (h : Within k x ρ) (hi : value? i = some x)
    (hr : value? r = some ρ) (lo : 0 ≤ k) (top : k + 1 ≤ 1023) :
    (Reading.ofCurrent i r).IsFinite ∧ ∃ v, value? (i * r) = some v ∧ v ≤ 2 * (x * ρ) := by
  have x_nonneg := value?_nonneg hi
  have ρ_nonneg := value?_nonneg hr
  have voltage : Rounds (i * r) (x * ρ) := rounds_mul hi hr
  obtain ⟨v, hv, -⟩ := voltage.le (isNumber_two_zpow (by omega) (by omega)) h.voltage_le
  have v_le : v ≤ 2 * (x * ρ) := voltage.le_two_mul (by positivity) hv
  have power : Rounds (i * r * i) (v * x) := rounds_mul hv hi
  have power_le : v * x ≤ 2 ^ (k + 1) := calc
    v * x ≤ 2 * (x * ρ) * x := by gcongr
    _ = x * (x * ρ) * 2 := by ring
    _ ≤ 2 ^ k * 2 := by
      gcongr
      exact h.power_le
    _ = 2 ^ (k + 1) := (zpow_add_one₀ two_ne_zero k).symm
  obtain ⟨p, hp, -⟩ := power.le (isNumber_two_zpow (by omega) (by omega)) power_le
  exact ⟨⟨isFinite_of_value? hv, isFinite_of_value? hi, isFinite_of_value? hp⟩, v, hv, v_le⟩

/-- **The current into a branch** is within a range that is wider by a fixed factor. -/
theorem branch {a b : Float} {v : ℚ} (h : Within k x ρ) (hx : 0 ≤ x) (ha : value? a = some v)
    (hv : v ≤ 2 * (x * ρ)) (hb : value? b = some y) (hy : 0 < y) (hρ : ρ ≤ 4 * y)
    (lo : 0 ≤ k) (top : k + 6 ≤ 1023) :
    ∃ z, value? (a / b) = some z ∧ Within (k + 6) z y := by
  have v_nonneg := value?_nonneg ha
  have widen : (2 : ℚ) ^ (k + 6) = 2 ^ k * 64 := by
    rw [zpow_add₀ two_ne_zero]
    norm_num
  have rounds : Rounds (a / b) (v / y) := rounds_div ha hb hy
  have quotient_le : v / y ≤ 8 * x := by
    rw [div_le_iff₀ hy]
    calc v ≤ 2 * (x * (4 * y)) := hv.trans (by gcongr)
      _ = 8 * x * y := by ring
  have quotient_top : v / y ≤ 2 ^ (k + 6) := by
    rw [widen]
    linarith [h.current_le, hx.trans h.current_le]
  obtain ⟨z, hz, -⟩ := rounds.le (isNumber_two_zpow (by omega) (by omega)) quotient_top
  have z_nonneg := value?_nonneg hz
  have z_le : z ≤ 2 * (v / y) := rounds.le_two_mul (by positivity) hz
  have voltage_le : z * y ≤ 4 * (x * ρ) := calc
    z * y ≤ 2 * (v / y) * y := by gcongr
    _ = 2 * v := by field_simp
    _ ≤ 4 * (x * ρ) := by linarith
  refine ⟨z, hz, ?_, ?_, ?_⟩
  · rw [widen]
    linarith [h.current_le, hx.trans h.current_le]
  · rw [widen]
    linarith [h.voltage_le, z_nonneg, mul_nonneg z_nonneg hy.le]
  · have power_le : z * (z * y) ≤ 16 * x * (4 * (x * ρ)) := by
      gcongr
      linarith
    rw [widen]
    linarith [h.power_le]

end Within

/-! ## Whole networks -/

/-- **Every reading of a solved network is finite**, when the network is within
range and the range has room for its levels of groups. -/
theorem Chain.isFinite_propagate {c : Chain Float} (sound : c.Sound) {i : Float} {k : ℤ} {x ρ : ℚ}
    (hi : value? i = some x) (within : Within k x ρ)
    (resistances : ∀ r ∈ c.resistances, ∃ y, value? r = some y ∧ y ≤ ρ) (lo : 0 ≤ k)
    (room : k + 6 * c.depth + 1 ≤ 1023) : ∀ e ∈ (c.propagate i).components, e.reading.IsFinite := by
  induction c using Chain.inductionOn generalizing i k x ρ with
  | resistor l v r =>
    intro e he
    obtain ⟨y, hy, le⟩ := resistances r List.mem_cons_self
    simp only [propagate, Element.propagate, components_resistor, List.mem_singleton] at he
    subst he
    simp only [depth, Element.depth] at room
    exact ((within.mono (value?_nonneg hi) le).reading hi hy lo (by omega)).1
  | group l v bs ih =>
    obtain ⟨y, hy, le⟩ := resistances _ List.mem_cons_self
    have x_nonneg := value?_nonneg hi
    have within := within.mono x_nonneg le
    simp only [depth, Element.depth] at room
    obtain ⟨outer, u, hu, u_le⟩ := within.reading hi hy lo (by omega)
    simp only [propagate, Element.propagate, components_group, propagateBranches_eq_map,
      List.flatMap_map]
    rw [List.forall_mem_cons]
    refine ⟨outer, fun e he => ?_⟩
    obtain ⟨b, hb, he⟩ := List.mem_flatMap.mp he
    have conducting := sound.conducting_branches
    obtain ⟨z, hz, pos⟩ := conducting b hb
    rw [Element.resistance_group] at hy
    have shallow := depth_le_branchDepth hb
    obtain ⟨j, hj, inner⟩ := within.branch x_nonneg hu u_le hz pos
      (conducting.resistance_le sound.group.1 hy hb hz) lo (by omega)
    refine ih b hb (sound.branch hb) hj inner ?_ (by omega) (by omega) e he
    exact le_value?_sum (sound.branch hb).notNegative_resistances hz
  | link e c he hc =>
    rw [Chain.resistances, List.forall_mem_cons] at resistances
    simp only [depth] at room he
    simp only [propagate, components_link]
    refine List.forall_mem_append.mpr ⟨he sound.link.1 hi within ?_ lo (by omega),
      hc sound.link.2 hi within resistances.2 lo (by omega)⟩
    intro r hr
    cases List.mem_singleton.mp hr
    exact resistances.1

/-! ## Supplies -/

/-- A float is a number of at most `2 ^ k`. -/
def AtMost (k : ℤ) (f : Float) : Prop := ∃ x ∈ value? f, x ≤ 2 ^ k

instance (k : ℤ) (f : Float) : Decidable (AtMost k f) :=
  inferInstanceAs (Decidable (∃ x ∈ value? f, x ≤ 2 ^ k))

/-- The totals of a circuit leave room below infinity. -/
def Totals.AtMost (k : ℤ) (t : Totals Float) : Prop :=
  SeriesParallel.AtMost k t.voltage ∧ SeriesParallel.AtMost k t.current ∧
    SeriesParallel.AtMost k t.power

instance (k : ℤ) (t : Totals Float) : Decidable (t.AtMost k) :=
  inferInstanceAs (Decidable (_ ∧ _ ∧ _))

/-- **The current of a supply** is within the range of the totals, but for the
rounding of the totals. -/
theorem Supply.within_of_resolve {s : Supply Float} {resistance : Float} {t : Totals Float} {ρ : ℚ}
    (h : s.resolve resistance = .ok t) (hr : value? resistance = some ρ) {k : ℤ} (lo : 0 ≤ k)
    (small : t.AtMost k) : ∃ x, value? t.current = some x ∧ Within (k + 2) x ρ := by
  obtain ⟨⟨u, hu, u_le⟩, ⟨x, hx, x_le⟩, ⟨p, hp, p_le⟩⟩ := small
  have ρ_nonneg := value?_nonneg hr
  have u_nonneg := value?_nonneg hu
  have x_nonneg := value?_nonneg hx
  have one_le : (1 : ℚ) ≤ 2 ^ k := one_le_zpow₀ one_le_two lo
  have widen : (2 : ℚ) ^ (k + 2) = 2 ^ k * 4 := by
    rw [zpow_add₀ two_ne_zero]
    norm_num
  have power_eq : t.power = t.voltage * t.current := by
    obtain ⟨v, -, -, -, rfl⟩ | ⟨i, -, -, rfl⟩ := resolve_cases h <;> rfl
  have product_le : u * x ≤ 2 ^ k * 2 := by
    rw [← zpow_add_one₀ two_ne_zero]
    rw [power_eq] at hp
    exact (rounds_mul hu hx).le_two_zpow lo hp p_le
  -- the exact voltage is about the rounded one, unless it is almost zero
  have voltage_le : x * ρ ≤ 2 * u ∨ x * ρ ≤ 1 := by
    obtain ⟨v, -, -, hpos, rfl⟩ | ⟨i, -, -, rfl⟩ := resolve_cases h
    · have pos : 0 < ρ := (zero_lt_iff hr).mp hpos
      have rounded := (rounds_div hu hr pos).le_two_mul (by positivity) hx
      rw [← mul_div_assoc, le_div_iff₀ pos] at rounded
      exact .inl rounded
    · by_cases least : (2 : ℚ) ^ (-1074 : ℤ) ≤ x * ρ
      · exact .inl ((rounds_mul hx hr).le_two_mul' least hu)
      · refine .inr (le_trans (le_of_not_ge least) ?_)
        exact zpow_le_one_of_nonpos₀ one_le_two (by norm_num)
  refine ⟨x, hx, by linarith, ?_, ?_⟩
  · rcases voltage_le with le | le <;> linarith
  · rcases voltage_le with le | le
    · have := mul_le_mul_of_nonneg_left le x_nonneg
      linarith
    · have := mul_le_mul_of_nonneg_left le x_nonneg
      linarith

/-! ## Circuits -/

/-- **A circuit whose totals leave room is finite**: with totals of at most
`2 ^ k` and groups nested `d` deep, every reading is finite if `k + 6 * d` is
at most 1020. -/
theorem ofDescription_finite {d : Description Float} {c : Circuit Float}
    (h : Circuit.ofDescription d = .ok c) {k : ℤ} (lo : 0 ≤ k) (small : c.totals.AtMost k)
    (room : k + 6 * c.root.depth ≤ 1020) : ∀ e ∈ c.root.components, e.reading.IsFinite := by
  obtain ⟨network, sound, resolved, root⟩ := Circuit.exists_network h
  rw [root, Chain.depth_propagate] at room
  obtain ⟨ρ, hρ⟩ := sound.notNegative_resistance.exists_value? (Supply.isFinite_of_resolve resolved)
  obtain ⟨x, hx, within⟩ := Supply.within_of_resolve resolved hρ lo small
  rw [root]
  exact Chain.isFinite_propagate sound hx within (le_value?_sum sound.notNegative_resistances hρ)
    (by omega) (by omega)

/-- The circuit of 12 V before a group in a branch of which a group was empty. -/
theorem ofDescription_finite_emptyBranch :
    ∃ c, Circuit.ofDescription emptyBranch = .ok c ∧
      ∀ e ∈ c.root.components, e.reading.IsFinite := by
  have built : (Circuit.ofDescription emptyBranch).isOk := by decide +kernel
  have room : ∀ c ∈ (Circuit.ofDescription emptyBranch).toOption,
      c.totals.AtMost 7 ∧ 7 + 6 * (c.root.depth : ℤ) ≤ 1020 := by decide +kernel
  obtain ⟨c, h⟩ := exists_eq_ok_of_isOk built
  obtain ⟨small, room⟩ := room c (by rw [h]; rfl)
  exact ⟨c, h, ofDescription_finite h (by norm_num) small room⟩

/-- **A circuit may be infinite** although its totals are finite: 245 Ω at a
voltage whose power rounds to the largest number. -/
theorem exists_parse_overflowing : ∃ input c, Circuit.parse input = .ok c ∧
    ∃ e ∈ c.root.components, ¬Quantity.isFinite e.reading.power := by
  have built : (Circuit.parse "X:V.2.0986538972428668e155:245").isOk := by decide +kernel
  have infinite : ∀ c ∈ (Circuit.parse "X:V.2.0986538972428668e155:245").toOption,
      ∃ e ∈ c.root.components, ¬Quantity.isFinite e.reading.power := by decide +kernel
  obtain ⟨c, h⟩ := exists_eq_ok_of_isOk built
  exact ⟨_, c, h, infinite c (by rw [h]; rfl)⟩

end SeriesParallel
