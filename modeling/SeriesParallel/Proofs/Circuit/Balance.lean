import Mathlib.Algebra.Order.Field.Rat
import SeriesParallel.Proofs.Circuit.Invariant
import SeriesParallel.Proofs.Network.Power

/-!
# Circuit — the supply is in balance with the network

Over exact rationals the supply of a circuit gives what its network takes: the
voltages along the root chain add up to the voltage of the supply, and the
resistors dissipate its power. As labels do not matter to solving, a circuit
is its labelled network, solved for the current of the supply; what is known
of solved networks applies to it.
-/

namespace SeriesParallel

/-! ## The totals -/

/-- **The totals obey Ohm's law**, and a supply that is accepted drives a
current through the network. -/
theorem Supply.resolve_eq_ok {s : Supply Rat} {resistance : Rat} {t : Totals Rat}
    (h : s.resolve resistance = .ok t) :
    t.resistance = resistance ∧ 0 < t.current ∧ t.voltage = t.current * resistance ∧
      t.power = t.voltage * t.current := by
  obtain ⟨v, -, hv, hr, rfl⟩ | ⟨i, -, hi, rfl⟩ := resolve_cases h
  · exact ⟨rfl, div_pos hv hr, (div_mul_cancel₀ v hr.ne').symm, rfl⟩
  · exact ⟨rfl, hi, rfl, rfl⟩

/-! ## The balance -/

/-- What the supply of a circuit gives is what the network takes. -/
structure Circuit.Balanced (c : Circuit Rat) : Prop where
  resistance : c.totals.resistance = c.root.resistance
  /-- Ohm's law for the whole circuit. -/
  ohm : c.totals.voltage = c.totals.current * c.totals.resistance
  /-- The voltages of the root chain add up to that of the supply. -/
  voltages : c.root.voltage = c.totals.voltage
  power : c.totals.power = c.totals.voltage * c.totals.current
  /-- The resistors of the whole network dissipate the power of the supply. -/
  dissipation : c.root.dissipation = c.totals.power
  /-- The resistors inside a group dissipate the power of the group. -/
  group_dissipation : ∀ l v bs, .group l v bs ∈ c.root.components →
    (bs.map Chain.dissipation).sum = v.power
  voltage_bounds : ∀ e ∈ c.root.components,
    0 ≤ e.reading.voltage ∧ e.reading.voltage ≤ c.totals.voltage
  current_bounds : ∀ e ∈ c.root.components,
    0 < e.reading.current ∧ e.reading.current ≤ c.totals.current

/-- **Every circuit is in balance**, whatever the description it is built from. -/
theorem ofDescription_balanced {d : Description Rat} {c : Circuit Rat}
    (h : Circuit.ofDescription d = .ok c) : c.Balanced := by
  obtain ⟨network, sound, resolved, root⟩ := Circuit.exists_network h
  obtain ⟨hR, hpos, hV, hP⟩ := Supply.resolve_eq_ok resolved
  have solvable : network.Solvable := sound.solvable
  have share (x : Element Rat) (hx : x ∈ c.root.components) :
      ∃ e ∈ network.components, ∃ share, x = e.propagate share ∧
        e.Share share c.totals.current c.totals.voltage := by
    rw [root] at hx
    rw [hV]
    exact Chain.exists_share solvable hpos hx
  refine ⟨?_, ?_, ?_, hP, ?_, fun l v bs hx => ?_, fun x hx => ?_, fun x hx => ?_⟩
  · rw [root, Chain.resistance_propagate, hR]
  · rw [hR, hV]
  · rw [root, Chain.voltage_propagate, hV]
  · rw [root, Chain.dissipation_propagate solvable.unshorted, hP, hV]
    ring
  · obtain ⟨e, he, share, hx, -⟩ := share _ hx
    have inside := Element.dissipation_propagate (solvable.of_mem he).unshorted share
    rw [← hx, Chain.dissipation_group] at inside
    exact inside
  · obtain ⟨e, he, share, rfl, taken⟩ := share x hx
    have nonneg : 0 ≤ (Chain.last e).resistance :=
      Chain.resistance_nonneg (solvable.of_mem he).resistance_nonneg
    rw [Chain.resistance_last] at nonneg
    rw [Element.reading_propagate]
    exact ⟨mul_nonneg taken.pos.le nonneg, taken.le_voltage⟩
  · obtain ⟨e, -, share, rfl, taken⟩ := share x hx
    rw [Element.reading_propagate]
    exact ⟨taken.pos, taken.le_current⟩

/-- A source of 12 V before the network with a group within a branch. -/
def nestedGroupsAcrossSource : Description Rat := ⟨"", .voltage 12, nestedGroups⟩

theorem ofDescription_balanced_nestedGroups :
    ∃ c, Circuit.ofDescription nestedGroupsAcrossSource = .ok c ∧ c.Balanced := by
  have built : (Circuit.ofDescription nestedGroupsAcrossSource).isOk := by decide +kernel
  obtain ⟨c, h⟩ := exists_eq_ok_of_isOk built
  exact ⟨c, h, ofDescription_balanced h⟩

end SeriesParallel
