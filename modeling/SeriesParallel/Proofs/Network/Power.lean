import Mathlib.Tactic.Ring
import SeriesParallel.Proofs.Network.Kirchhoff

/-!
# Network — where the power goes

The resistors of a network dissipate what enters it: current squared times
resistance. Every component of a solved network is one of the network that
carries a share of the current, so this holds of each group as well, and no
component sees more voltage or current than the network does.
-/

namespace SeriesParallel

/-! ## Dissipation -/

/-- The power that the resistors of a network dissipate, added up. -/
def Chain.dissipation (c : Chain Rat) : Rat := (c.resistors.map fun e => e.reading.power).sum

namespace Chain

@[simp] theorem dissipation_resistor (l : String) (v : Reading Rat) (r : Rat) :
    (last (.resistor l v r)).dissipation = v.power := by
  simp [dissipation, Element.reading]

@[simp] theorem dissipation_group (l : String) (v : Reading Rat) (bs : List (Chain Rat)) :
    (last (.group l v bs)).dissipation = (bs.map dissipation).sum := by
  rw [dissipation, resistors_group]
  induction bs with
  | nil => rfl
  | cons b bs ih =>
    rw [List.flatMap_cons, List.map_append, List.sum_append, ih, List.map_cons, List.sum_cons,
      dissipation]

@[simp] theorem dissipation_link (e : Element Rat) (c : Chain Rat) :
    (link e c).dissipation = (last e).dissipation + c.dissipation := by
  rw [dissipation, resistors_link, List.map_append, List.sum_append, dissipation, dissipation]

/-- **A network dissipates what enters it.** -/
theorem dissipation_propagate {c : Chain Rat} (h : c.Unshorted) (current : Rat) :
    (c.propagate current).dissipation = current * current * c.resistance := by
  induction c using Chain.inductionOn generalizing current with
  | resistor l v r =>
    rw [propagate, Element.propagate, dissipation_resistor, resistance_last, Element.resistance]
    show current * r * current = current * current * r
    ring
  | group l v bs ih =>
    let voltage := (Reading.ofCurrent current (Element.group l v bs).resistance).voltage
    -- a branch dissipates the square of the voltage times its conductance
    have branches : (propagateBranches voltage bs).map dissipation
        = bs.map fun b => voltage * voltage * (1 / b.resistance) := by
      rw [propagateBranches_eq_map, List.map_map]
      refine List.map_congr_left fun b hb => ?_
      obtain ⟨hne, inner⟩ := h.branch hb
      rw [Function.comp_apply, ih b hb inner]
      field_simp
    have across : voltage = current * (1 / conductance bs) := by
      rw [← Element.resistance_group_eq l v]
      rfl
    have squared : 1 / conductance bs * (1 / conductance bs) * conductance bs
        = 1 / conductance bs := by
      by_cases hG : conductance bs = 0
      · rw [hG, mul_zero, div_zero]
      · field_simp
    calc ((last (.group l v bs)).propagate current).dissipation
        = ((propagateBranches voltage bs).map dissipation).sum := dissipation_group ..
      _ = voltage * voltage * conductance bs := by
        rw [branches, List.sum_map_mul_left, conductance]
      _ = current * current * (1 / conductance bs * (1 / conductance bs) * conductance bs) := by
        rw [across]
        ring
      _ = current * current * (last (.group l v bs)).resistance := by
        rw [squared, resistance_last, Element.resistance_group_eq]
  | link e c he hc =>
    have head := he h.link.1 current
    rw [propagate] at head
    rw [propagate, dissipation_link, head, hc h.link.2, resistance_last, resistance_link]
    ring

end Chain

/-- A solved element has the power that the resistors in it dissipate. -/
theorem Element.dissipation_propagate {e : Element Rat} (h : (Chain.last e).Unshorted)
    (current : Rat) :
    (Chain.last (e.propagate current)).dissipation = (e.propagate current).reading.power := by
  have whole := Chain.dissipation_propagate h current
  rw [Chain.propagate, Chain.resistance_last] at whole
  rw [whole, reading_propagate]
  show current * current * e.resistance = current * e.resistance * current
  ring

/-! ## Shares of voltage and current -/

/-- The conductance of a branch is a part of that of its group. -/
theorem one_div_resistance_le {bs : List (Chain Rat)} {b : Chain Rat}
    (pos : ∀ b ∈ bs, 0 < b.resistance) (hb : b ∈ bs) : 1 / b.resistance ≤ conductance bs := by
  have nonneg : ∀ x ∈ bs.map fun b => 1 / b.resistance, 0 ≤ x := by
    intro x hx
    obtain ⟨d, hd, rfl⟩ := List.mem_map.mp hx
    exact (one_div_pos.mpr (pos d hd)).le
  exact List.single_le_sum nonneg _ (List.mem_map_of_mem hb)

/-- An element takes a share of a current and of a voltage. -/
structure Element.Share (e : Element Rat) (share current voltage : Rat) : Prop where
  pos : 0 < share
  le_current : share ≤ current
  le_voltage : share * e.resistance ≤ voltage

theorem Element.Share.mono {e : Element Rat} {share current current' voltage voltage' : Rat}
    (h : e.Share share current voltage) (hcurrent : current ≤ current')
    (hvoltage : voltage ≤ voltage') : e.Share share current' voltage' :=
  ⟨h.pos, h.le_current.trans hcurrent, h.le_voltage.trans hvoltage⟩

/-- **Every component takes a share**: what is solved is a component of the
network for a part of the current that enters it. -/
theorem Chain.exists_share {c : Chain Rat} (hc : c.Solvable) {current : Rat} (hpos : 0 < current)
    {x : Element Rat} (hx : x ∈ (c.propagate current).components) :
    ∃ e ∈ c.components, ∃ share, x = e.propagate share ∧
      e.Share share current (current * c.resistance) := by
  induction c using Chain.inductionOn generalizing current with
  | resistor l v r =>
    rw [propagate, Element.propagate, components_resistor, List.mem_singleton] at hx
    refine ⟨.resistor l v r, by simp, current, hx, hpos, le_refl _, ?_⟩
    rw [resistance_last]
  | group l v bs ih =>
    rw [propagate, Element.propagate, components_group, List.mem_cons, List.mem_flatMap] at hx
    rcases hx with hx | ⟨b', hb', hx⟩
    · refine ⟨.group l v bs, by simp, current, hx, hpos, le_refl _, ?_⟩
      rw [resistance_last]
    · rw [propagateBranches_eq_map] at hb'
      obtain ⟨b, hb, rfl⟩ := List.mem_map.mp hb'
      have branch_pos : ∀ b ∈ bs, 0 < b.resistance := hc.branch_pos l v bs (by simp)
      have hR : 0 < b.resistance := branch_pos b hb
      have hG : 0 < conductance bs := hc.conductance_pos
      have across : (Reading.ofCurrent current (Element.group l v bs).resistance).voltage
          = current / conductance bs := by
        rw [Element.resistance_group_eq, Reading.ofCurrent, mul_one_div]
      have hV : 0 < current / conductance bs := div_pos hpos hG
      rw [across] at hx
      obtain ⟨e, he, share, rfl, taken⟩ := ih b hb (hc.branch hb) (div_pos hV hR) hx
      refine ⟨e, mem_components_group hb he, share, rfl, taken.mono ?_ ?_⟩
      · have part : 1 / b.resistance ≤ conductance bs := one_div_resistance_le branch_pos hb
        calc current / conductance bs / b.resistance
            = current / conductance bs * (1 / b.resistance) := (mul_one_div _ _).symm
          _ ≤ current / conductance bs * conductance bs := by gcongr
          _ = current := div_mul_cancel₀ current hG.ne'
      · rw [div_mul_cancel₀ _ hR.ne', resistance_last, Element.resistance_group_eq, mul_one_div]
  | link e c he hc' =>
    have hR : 0 ≤ (last e).resistance := resistance_nonneg hc.link.1.resistance_nonneg
    have hR' : 0 ≤ c.resistance := resistance_nonneg hc.link.2.resistance_nonneg
    have total : (link e c).resistance = (last e).resistance + c.resistance := by
      rw [resistance_link, resistance_last]
    rw [propagate, components_link, List.mem_append] at hx
    rw [total]
    rcases hx with hx | hx
    · obtain ⟨f, hf, share, rfl, taken⟩ := he hc.link.1 hpos hx
      refine ⟨f, components_last_subset e c hf, share, rfl, taken.mono (le_refl _) ?_⟩
      gcongr
      linarith
    · obtain ⟨f, hf, share, rfl, taken⟩ := hc' hc.link.2 hpos hx
      refine ⟨f, components_rest_subset e c hf, share, rfl, taken.mono (le_refl _) ?_⟩
      gcongr
      linarith

end SeriesParallel
