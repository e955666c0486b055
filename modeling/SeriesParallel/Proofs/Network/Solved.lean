import SeriesParallel.Proofs.Network.Labels

/-!
# Network — the equations of a solved network

A solved network obeys local equations: the current that enters a chain flows
through each of its elements, every element reads what Ohm's law gives for its
resistance, and a branch carries the voltage across its group divided by the
resistance of the branch. The resistances are those of the solved network
itself, so whoever computes them again agrees with the solver.

The operations of `R` are only given, and no law of arithmetic is used. So the
equations hold of rounded numbers as they stand, bit for bit.
-/

namespace SeriesParallel

variable {R : Type} [Quantity R]

/-- **The equations of a network** that a current enters, on its readings. -/
structure Chain.Solved (c : Chain R) (current : R) : Prop where
  /-- The current that enters flows through every element of the chain. -/
  entering : ∀ e ∈ c.elements, e.reading.current = current
  /-- Every element reads the voltage of Ohm's law. -/
  voltage : ∀ e ∈ c.components, e.reading.voltage = e.reading.current * e.resistance
  /-- Every element dissipates voltage times current. -/
  power : ∀ e ∈ c.components, e.reading.power = e.reading.voltage * e.reading.current
  /-- A branch has a resistance, and the voltage across its group divided by that
  flows through every element of it. -/
  branch : ∀ e ∈ c.components, ∀ i b, e.branches[i]? = some b →
    ∃ r, e.branchResistance? i = some r ∧
      ∀ x ∈ b.elements, x.reading.current = e.reading.voltage / r

namespace Chain.Solved

variable {current : R}

/-! ## The equations, one constructor at a time -/

/-- The elements of a branch carry the share of the branch. -/
theorem current_eq {c b : Chain R} {e : Element R} (h : c.Solved current)
    (he : e ∈ c.components) (hb : b ∈ e.branches) :
    ∀ x ∈ b.elements, x.reading.current = e.reading.voltage / b.resistance := by
  obtain ⟨i, hi⟩ := List.mem_iff_getElem?.mp hb
  obtain ⟨r, hr, share⟩ := h.branch e he i b hi
  rw [Element.branchResistance?, hi, Option.map_some, Option.some.injEq] at hr
  rw [hr]
  exact share

/-- What an element reads is determined by its current. -/
theorem reading_eq {c : Chain R} {e : Element R} (h : c.Solved current)
    (he : e ∈ c.components) (hcurrent : e.reading.current = current) :
    e.reading = .ofCurrent current e.resistance := by
  have hv := h.voltage e he
  have hp := h.power e he
  cases hreading : e.reading with
  | mk v i p =>
    rw [hreading] at hv hp hcurrent
    simp only at hv hp hcurrent
    rw [hp, hv, hcurrent, Reading.ofCurrent]

theorem resistor_iff {l : String} {v : Reading R} {r : R} :
    (last (.resistor l v r)).Solved current ↔ v = .ofCurrent current r := by
  constructor
  · intro h
    have self : Element.resistor l v r ∈ (last (.resistor l v r)).components := by simp
    have entering : v.current = current := h.entering (.resistor l v r) List.mem_cons_self
    exact h.reading_eq self entering
  · rintro rfl
    constructor <;>
      simp [elements, Element.reading, Element.branches, Element.resistance, Reading.ofCurrent]

theorem link_iff {e : Element R} {c : Chain R} :
    (link e c).Solved current ↔ (last e).Solved current ∧ c.Solved current := by
  constructor
  · intro h
    obtain ⟨entering, voltage, power, branch⟩ := h
    simp only [components_link, List.forall_mem_append] at voltage power branch
    rw [elements, List.forall_mem_cons] at entering
    have first : ∀ x ∈ (last e).elements, x.reading.current = current :=
      List.forall_mem_singleton.mpr entering.1
    exact ⟨⟨first, voltage.1, power.1, branch.1⟩, ⟨entering.2, voltage.2, power.2, branch.2⟩⟩
  · intro h
    obtain ⟨he, hc⟩ := h
    have first : e.reading.current = current := he.entering e List.mem_cons_self
    constructor <;> simp only [elements, components_link, List.forall_mem_cons,
      List.forall_mem_append]
    · exact ⟨first, hc.entering⟩
    · exact ⟨he.voltage, hc.voltage⟩
    · exact ⟨he.power, hc.power⟩
    · exact ⟨he.branch, hc.branch⟩

/-- A group obeys the equations when it does itself and each branch does for its
share of the current. -/
theorem group_iff {l : String} {v : Reading R} {bs : List (Chain R)} :
    (last (.group l v bs)).Solved current ↔
      v = .ofCurrent current (Element.group l v bs).resistance ∧
      ∀ b ∈ bs, b.Solved (v.voltage / b.resistance) := by
  have self : Element.group l v bs ∈ (last (.group l v bs)).components := by simp
  constructor
  · intro h
    have entering : v.current = current := h.entering (.group l v bs) List.mem_cons_self
    refine ⟨h.reading_eq self entering, fun b hb => ?_⟩
    have inside {x : Element R} (hx : x ∈ b.components) :
        x ∈ (last (.group l v bs)).components := mem_components_group hb hx
    exact ⟨h.current_eq self hb, fun x hx => h.voltage x (inside hx),
      fun x hx => h.power x (inside hx), fun x hx => h.branch x (inside hx)⟩
  · intro h
    obtain ⟨hv, hbranch⟩ := h
    constructor <;> simp only [elements, components_group, List.forall_mem_cons,
      List.forall_mem_flatMap]
    · refine ⟨?_, fun _ hx => absurd hx List.not_mem_nil⟩
      show v.current = current
      rw [hv]
      rfl
    · refine ⟨?_, fun b hb => (hbranch b hb).voltage⟩
      show v.voltage = v.current * _
      rw [hv]
      rfl
    · refine ⟨?_, fun b hb => (hbranch b hb).power⟩
      show v.power = v.voltage * v.current
      rw [hv]
      rfl
    · refine ⟨fun i b hi => ?_, fun b hb => (hbranch b hb).branch⟩
      have hb : b ∈ bs := List.mem_of_getElem? hi
      exact ⟨b.resistance, by rw [Element.branchResistance?, hi, Option.map_some],
        (hbranch b hb).entering⟩

/-! ## Propagation fills in the readings that obey them -/

theorem propagate (c : Chain R) (current : R) : (c.propagate current).Solved current := by
  induction c using Chain.inductionOn generalizing current with
  | resistor l v r => exact resistor_iff.mpr rfl
  | group l v bs ih =>
    have outer := Element.resistance_propagate (.group l v bs) current
    simp only [Element.propagate, propagateBranches_eq_map] at outer
    simp only [Chain.propagate, Element.propagate, propagateBranches_eq_map]
    refine group_iff.mpr ⟨by rw [outer], fun b' hb' => ?_⟩
    -- a branch is as resistant solved as it was
    obtain ⟨b, hb, rfl⟩ := List.mem_map.mp hb'
    rw [resistance_propagate]
    exact ih b hb _
  | link e c he hc => exact link_iff.mpr ⟨he current, hc current⟩

/-- Readings that obey the equations are those that propagation fills in. -/
theorem propagate_eq {c : Chain R} (h : c.Solved current) : c.propagate current = c := by
  induction c using Chain.inductionOn generalizing current with
  | resistor l v r =>
    rw [resistor_iff.mp h]
    rfl
  | group l v bs ih =>
    obtain ⟨hv, hbranch⟩ := group_iff.mp h
    have same : bs.map (fun b => b.propagate (v.voltage / b.resistance)) = bs :=
      (List.map_congr_left fun b hb => ih b hb (hbranch b hb)).trans bs.map_id
    simp only [Chain.propagate, Element.propagate, ← hv, propagateBranches_eq_map, same]
  | link e c he hc =>
    obtain ⟨hl, hr⟩ := link_iff.mp h
    have first := he hl
    rw [Chain.propagate, last.injEq] at first
    rw [Chain.propagate, first, hc hr]

end Chain.Solved

/-- **What propagation does, and what it leaves alone.** The network it gives
obeys the equations at every depth. Nothing but readings has changed, the
readings before do not matter, and propagating once more changes nothing.
Labels may be assigned before or after. -/
theorem propagate_local_equations (c : Chain R) (current : R) :
    (c.propagate current).Solved current ∧
    (c.propagate current).unsolved = c.unsolved ∧
    (∀ d : Chain R, d.unsolved = c.unsolved → d.propagate current = c.propagate current) ∧
    (c.propagate current).propagate current = c.propagate current ∧
    ∀ s : LabelSequence, (c.propagate current).assignLabels s =
      ((c.assignLabels s).1.propagate current, (c.assignLabels s).2) := by
  have solved := Chain.Solved.propagate c current
  exact ⟨solved, c.unsolved_propagate current,
    fun d hd => Chain.propagate_eq_of_unsolved_eq hd current, solved.propagate_eq,
    c.assignLabels_propagate current⟩

/-- A group within a branch, with readings that are not its own: 10 Ω before 20 Ω
beside 4 Ω and 3 Ω ∥ 6 Ω. -/
def staleReadings : Chain Float :=
  .link (.resistor "A" ⟨1, 2, 3⟩ 10) (.last (.group "B" ⟨4, 5, 6⟩ [
    .last (.resistor "C" ⟨7, 8, 9⟩ 20),
    .link (.group "D" ⟨1, 1, 1⟩ [.last (.resistor "E" ⟨2, 2, 2⟩ 3),
      .last (.resistor "F" ⟨3, 3, 3⟩ 6)]) (.last (.resistor "G" ⟨5, 5, 5⟩ 4))]))

theorem propagate_local_equations_staleReadings :
    (staleReadings.propagate 0.3).Solved 0.3 ∧
      staleReadings.unsolved.unsolved = staleReadings.unsolved ∧
      staleReadings.unsolved.propagate 0.3 = staleReadings.propagate 0.3 := by
  have same : staleReadings.unsolved.unsolved = staleReadings.unsolved := rfl
  obtain ⟨solved, -, readings, -⟩ := propagate_local_equations staleReadings 0.3
  exact ⟨solved, same, readings _ same⟩

end SeriesParallel
