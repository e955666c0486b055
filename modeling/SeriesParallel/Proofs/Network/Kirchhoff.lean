import Mathlib.Algebra.BigOperators.Ring.List
import Mathlib.Tactic.FieldSimp
import SeriesParallel.Proofs.Network.Rational
import SeriesParallel.Proofs.Network.Solved

/-!
# Network — Kirchhoff's laws

The laws of a series-parallel network whose readings are all filled in:
elements in series carry one current, Ohm's law fixes the voltage across a
resistor, the voltages along every branch add up to the voltage across its
group, and the currents of the branches add up to the current through it.

Propagation solves these laws, and it is their only solution. Both directions
rest on one fact, which the laws give and propagation has by construction: the
voltages of a chain add up to current times resistance.
-/

namespace SeriesParallel

/-- The voltages of the elements of a chain, added up. -/
def Chain.voltage (c : Chain Rat) : Rat := (c.elements.map fun e => e.reading.voltage).sum

/-- **Kirchhoff's laws** for a network that a current enters, on the readings
of its components. -/
structure Kirchhoff (current : Rat) (c : Chain Rat) : Prop where
  /-- The current that enters flows through every element of the chain. -/
  entering : ∀ e ∈ c.elements, e.reading.current = current
  /-- The elements of a branch carry the current of its first element. -/
  shared : ∀ e ∈ c.components, ∀ b ∈ e.branches, ∀ x ∈ b.elements,
    x.reading.current = b.head.reading.current
  /-- Ohm's law. -/
  ohm : ∀ l v r, Element.resistor l v r ∈ c.components → v.voltage = v.current * r
  /-- Every element dissipates voltage times current. -/
  power : ∀ e ∈ c.components, e.reading.power = e.reading.voltage * e.reading.current
  /-- The voltages along a branch add up to the voltage across the group. -/
  voltages : ∀ l v bs, Element.group l v bs ∈ c.components → ∀ b ∈ bs, b.voltage = v.voltage
  /-- The currents that enter the branches add up to the current of the group. -/
  currents : ∀ l v bs, Element.group l v bs ∈ c.components →
    (bs.map fun b => b.head.reading.current).sum = v.current

namespace Kirchhoff

variable {current : Rat}

/-! ## The laws, one constructor at a time -/

theorem resistor_iff {l : String} {v : Reading Rat} {r : Rat} :
    Kirchhoff current (.last (.resistor l v r)) ↔ v = .ofCurrent current r := by
  constructor
  · intro h
    have hc : v.current = current := h.entering (.resistor l v r) (by simp [Chain.elements])
    have hv : v.voltage = v.current * r := h.ohm l v r (by simp)
    have hp : v.power = v.voltage * v.current := h.power (.resistor l v r) (by simp)
    obtain ⟨voltage, current', power⟩ := v
    simp_all [Reading.ofCurrent]
  · intro h
    subst h
    constructor <;> simp [Chain.elements, Element.reading, Element.branches, Reading.ofCurrent]
    intro l' v' r' hl hv hr
    subst hv hr
    rfl

theorem link_iff {e : Element Rat} {c : Chain Rat} :
    Kirchhoff current (.link e c) ↔ Kirchhoff current (.last e) ∧ Kirchhoff current c := by
  constructor
  · intro h
    obtain ⟨entering, shared, ohm, power, voltages, currents⟩ := h
    simp only [Chain.components_link, List.mem_append] at shared ohm power voltages currents
    simp only [Chain.elements, List.mem_cons] at entering
    refine ⟨⟨?_, fun x h => shared x (.inl h), fun l v r h => ohm l v r (.inl h),
      fun x h => power x (.inl h), fun l v bs h => voltages l v bs (.inl h),
      fun l v bs h => currents l v bs (.inl h)⟩,
      ⟨fun x h => entering x (.inr h), fun x h => shared x (.inr h),
      fun l v r h => ohm l v r (.inr h), fun x h => power x (.inr h),
      fun l v bs h => voltages l v bs (.inr h), fun l v bs h => currents l v bs (.inr h)⟩⟩
    intro x h
    simp only [Chain.elements, List.mem_singleton] at h
    exact entering x (.inl h)
  · intro h
    obtain ⟨he, hc⟩ := h
    constructor <;> simp only [Chain.components_link, Chain.elements, List.mem_append, List.mem_cons]
    · intro x hmem
      rcases hmem with rfl | h
      · exact he.entering x (by simp [Chain.elements])
      · exact hc.entering x h
    · exact fun x h => h.elim (he.shared x) (hc.shared x)
    · exact fun l v r h => h.elim (he.ohm l v r) (hc.ohm l v r)
    · exact fun x h => h.elim (he.power x) (hc.power x)
    · exact fun l v bs h => h.elim (he.voltages l v bs) (hc.voltages l v bs)
    · exact fun l v bs h => h.elim (he.currents l v bs) (hc.currents l v bs)

/-- A group obeys the laws when it does itself and each branch does for the
current of its first element. -/
theorem group_iff {l : String} {v : Reading Rat} {bs : List (Chain Rat)} :
    Kirchhoff current (.last (.group l v bs)) ↔
      v.current = current ∧ v.power = v.voltage * v.current ∧
      (bs.map fun b => b.head.reading.current).sum = v.current ∧
      ∀ b ∈ bs, b.voltage = v.voltage ∧ Kirchhoff b.head.reading.current b := by
  constructor
  · intro h
    have self : Element.group l v bs ∈ (Chain.last (.group l v bs)).components := by simp
    refine ⟨h.entering (.group l v bs) (by simp [Chain.elements]), h.power _ self,
      h.currents l v bs self, fun b hb => ⟨h.voltages l v bs self b hb, ?_⟩⟩
    have inside {x : Element Rat} (hx : x ∈ b.components) :
        x ∈ (Chain.last (.group l v bs)).components := Chain.mem_components_group hb hx
    exact ⟨h.shared _ self b (by simpa [Element.branches]), fun x hx => h.shared x (inside hx),
      fun l v r hx => h.ohm l v r (inside hx), fun x hx => h.power x (inside hx),
      fun l v bs hx => h.voltages l v bs (inside hx), fun l v bs hx => h.currents l v bs (inside hx)⟩
  · intro h
    obtain ⟨hcurrent, hpower, hsum, hbranch⟩ := h
    constructor <;> simp only [Chain.components_group, Chain.elements, List.mem_cons, List.mem_flatMap]
    · intro x hmem
      rcases hmem with rfl | h
      · exact hcurrent
      · exact absurd h List.not_mem_nil
    · intro x hmem
      rcases hmem with rfl | ⟨b, hb, hx⟩
      · exact fun b hb => (hbranch b hb).2.entering
      · exact (hbranch b hb).2.shared x hx
    · intro l' v' r hmem
      rcases hmem with h | ⟨b, hb, hx⟩
      · cases h
      · exact (hbranch b hb).2.ohm l' v' r hx
    · intro x hmem
      rcases hmem with rfl | ⟨b, hb, hx⟩
      · exact hpower
      · exact (hbranch b hb).2.power x hx
    · intro l' v' bs' hmem
      rcases hmem with h | ⟨b, hb, hx⟩
      · cases h
        exact fun b hb => (hbranch b hb).1
      · exact (hbranch b hb).2.voltages l' v' bs' hx
    · intro l' v' bs' hmem
      rcases hmem with h | ⟨b, hb, hx⟩
      · cases h
        exact hsum
      · exact (hbranch b hb).2.currents l' v' bs' hx

/-! ## Voltage is current times resistance -/

/-- **Ohm's law for chains**: in a solvable network the laws determine the
voltage across a chain. -/
theorem voltage_eq {c : Chain Rat} (hc : c.Solvable) (h : Kirchhoff current c) :
    c.voltage = current * c.resistance := by
  induction c using Chain.inductionOn generalizing current with
  | resistor l v r =>
    rw [resistor_iff.mp h]
    simp [Chain.voltage, Chain.elements, Element.reading, Reading.ofCurrent, Element.resistance]
  | group l v bs ih =>
    obtain ⟨hcurrent, -, hsum, hbranch⟩ := group_iff.mp h
    have pos : ∀ b ∈ bs, 0 < b.resistance := hc.branch_pos l v bs (by simp)
    -- every branch takes its share of the voltage, and the shares add up
    have shares : bs.map (fun b => b.head.reading.current)
        = bs.map fun b => v.voltage * (1 / b.resistance) := by
      refine List.map_congr_left fun b hb => ?_
      have hv := ih b hb (hc.branch hb) (hbranch b hb).2
      rw [(hbranch b hb).1] at hv
      have := (pos b hb).ne'
      rw [hv]
      field_simp
    have total : v.voltage * conductance bs = current := by
      rw [← hcurrent, ← hsum, shares, List.sum_map_mul_left]
      rfl
    have hG := hc.conductance_pos.ne'
    have : v.voltage = current * (1 / conductance bs) := by
      rw [← total]
      field_simp
    simpa [Chain.voltage, Chain.elements, Element.reading, Element.resistance_group_eq] using this
  | link e c he hc' =>
    obtain ⟨hl, hr⟩ := link_iff.mp h
    have first := he hc.link.1 hl
    have rest := hc' hc.link.2 hr
    simp only [Chain.voltage, Chain.elements, List.map_cons, List.map_nil, List.sum_cons,
      List.sum_nil, add_zero, Chain.resistance_last, Chain.resistance_link] at first rest ⊢
    rw [first, rest, mul_add]

end Kirchhoff

/-! ## Propagation solves the laws -/

/-- The voltages that propagation gives a chain add up to current times
resistance, whatever the network. -/
theorem Chain.voltage_propagate (c : Chain Rat) (current : Rat) :
    (c.propagate current).voltage = current * c.resistance := by
  simp only [voltage, elements_propagate, List.map_map, Function.comp_def,
    Element.reading_propagate, Reading.ofCurrent, resistance_eq_sum, List.sum_map_mul_left]

theorem Kirchhoff.propagate {c : Chain Rat} (hc : c.Solvable) (current : Rat) :
    Kirchhoff current (c.propagate current) := by
  induction c using Chain.inductionOn generalizing current with
  | resistor l v r => exact resistor_iff.mpr rfl
  | group l v bs ih =>
    have pos : ∀ b ∈ bs, 0 < b.resistance := hc.branch_pos l v bs (by simp)
    have hG := hc.conductance_pos.ne'
    have hV : (Reading.ofCurrent current (Element.group l v bs).resistance).voltage
        = current / conductance bs := by
      simp [Reading.ofCurrent, Element.resistance_group_eq, div_eq_mul_inv]
    simp only [Chain.propagate, Element.propagate, hV, propagateBranches_eq_map]
    refine group_iff.mpr ⟨rfl, rfl, ?_, ?_⟩
    · simp only [List.map_map, Function.comp_def, Chain.head_propagate, Element.reading_propagate]
      calc (bs.map fun b => current / conductance bs / b.resistance).sum
          = (bs.map fun b => current / conductance bs * (1 / b.resistance)).sum := by
            simp only [mul_one_div]
        _ = current / conductance bs * conductance bs := by
            rw [List.sum_map_mul_left, conductance]
        _ = current := div_mul_cancel₀ current hG
    · intro b' hb'
      obtain ⟨b, hb, rfl⟩ := List.mem_map.mp hb'
      rw [Chain.head_propagate, Element.reading_propagate]
      refine ⟨?_, ih b hb (hc.branch hb) _⟩
      rw [Chain.voltage_propagate, hV, div_mul_cancel₀ _ (pos b hb).ne']
  | link e c he hc' =>
    exact link_iff.mpr ⟨he hc.link.1 current, hc' hc.link.2 current⟩

/-! ## There is no other solution -/

/-- The laws leave a solvable network no choice: its readings obey the equations
of a solved network. -/
theorem Kirchhoff.solved {c : Chain Rat} {current : Rat} (hc : c.Solvable)
    (h : Kirchhoff current c) : c.Solved current := by
  induction c using Chain.inductionOn generalizing current with
  | resistor l v r => exact Chain.Solved.resistor_iff.mpr (resistor_iff.mp h)
  | group l v bs ih =>
    obtain ⟨hcurrent, hpower, -, hbranch⟩ := group_iff.mp h
    have pos : ∀ b ∈ bs, 0 < b.resistance := hc.branch_pos l v bs (by simp)
    have across : v.voltage = current * (Element.group l v bs).resistance := by
      simpa [Chain.voltage, Chain.elements, Element.reading] using h.voltage_eq hc
    refine Chain.Solved.group_iff.mpr ⟨?_, fun b hb => ?_⟩
    · rw [Reading.ofCurrent, ← across, ← hcurrent, ← hpower]
    · -- a branch already carries the current that it is handed
      obtain ⟨hv, hb'⟩ := hbranch b hb
      have share : v.voltage / b.resistance = b.head.reading.current := by
        rw [← hv, hb'.voltage_eq (hc.branch hb), mul_div_cancel_right₀ _ (pos b hb).ne']
      rw [share]
      exact ih b hb (hc.branch hb) hb'
  | link e c he hc' =>
    obtain ⟨hl, hr⟩ := link_iff.mp h
    exact Chain.Solved.link_iff.mpr ⟨he hc.link.1 hl, hc' hc.link.2 hr⟩

/-- Readings that obey the laws are those that propagation finds. -/
theorem Kirchhoff.propagate_eq {c : Chain Rat} {current : Rat} (hc : c.Solvable)
    (h : Kirchhoff current c) : c.propagate current = c := (h.solved hc).propagate_eq

/-- **Propagation finds the one solution of Kirchhoff's laws**: it fills in
readings that obey them and changes nothing else, and any readings of the same
network that obey them for the same current are those. -/
theorem propagate_unique_solution {c : Chain Rat} (hc : c.Solvable) (current : Rat) :
    Kirchhoff current (c.propagate current) ∧
      (c.propagate current).unsolved = c.unsolved ∧
      ∀ d : Chain Rat, d.unsolved = c.unsolved → Kirchhoff current d →
        d = c.propagate current := by
  refine ⟨.propagate hc current, c.unsolved_propagate current, fun d hd h => ?_⟩
  calc d = d.propagate current := (h.propagate_eq (hc.of_unsolved_eq hd)).symm
    _ = d.unsolved.propagate current := (d.propagate_unsolved current).symm
    _ = c.unsolved.propagate current := by rw [hd]
    _ = c.propagate current := c.propagate_unsolved current

/-- A group within a branch: 10 Ω before 20 Ω beside 4 Ω and 3 Ω ∥ 6 Ω. -/
def nestedGroups : Chain Rat :=
  .link (.ofResistance 10) (.last (.parallel [.last (.ofResistance 20),
    .link (.parallel [.last (.ofResistance 3), .last (.ofResistance 6)])
      (.last (.ofResistance 4))]))

theorem propagate_unique_solution_nestedGroups :
    nestedGroups.Solvable ∧ Kirchhoff 2 (nestedGroups.propagate 2) ∧
      (nestedGroups.propagate 2).unsolved = nestedGroups.unsolved ∧
      ∀ d : Chain Rat, d.unsolved = nestedGroups.unsolved → Kirchhoff 2 d →
        d = nestedGroups.propagate 2 := by
  have h : nestedGroups.Solvable := by
    constructor <;> simp only [nestedGroups, Element.ofResistance, Element.parallel,
      Chain.components_link, Chain.components_resistor, Chain.components_group, List.mem_append,
      List.mem_cons, List.flatMap_cons, List.flatMap_nil, List.not_mem_nil, reduceCtorEq,
      Element.resistor.injEq, Element.group.injEq, false_or, or_false]
    · intro l v r hmem
      rcases hmem with ⟨-, -, rfl⟩ | ⟨-, -, rfl⟩ | (⟨-, -, rfl⟩ | ⟨-, -, rfl⟩) | ⟨-, -, rfl⟩ <;>
        norm_num
    · intro l v bs hmem
      rcases hmem with ⟨-, -, rfl⟩ | ⟨-, -, rfl⟩ <;> decide
    · intro l v bs hmem
      rcases hmem with ⟨-, -, rfl⟩ | ⟨-, -, rfl⟩ <;>
        norm_num [Element.resistance, conductances, Chain.resistances, Quantity.sum_eq_sum]
  exact ⟨h, propagate_unique_solution h 2⟩

end SeriesParallel
