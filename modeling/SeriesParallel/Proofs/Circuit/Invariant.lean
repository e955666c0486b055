import SeriesParallel.Circuit
import SeriesParallel.Proofs.Network.Canonical

/-!
# Circuit — what holds of every circuit

A circuit is built in stages, and no stage alone makes it well formed. The
canonical form has no lone group among the branches of a group, but it may
have a one-branch group where an empty group was spliced away; validation
refuses that one. Solving and labelling come after validation, and keep what
it has checked.
-/

namespace SeriesParallel

variable {R : Type} [Quantity R]

/-! ## The stages -/

/-- The totals of a supply are what Ohm's law gives, if it is finite. -/
theorem Supply.totals_eq_ok_iff {s : Supply R} {resistance voltage current : R} {t : Totals R} :
    s.totals resistance voltage current = .ok t ↔
      (Quantity.isFinite voltage ∧ Quantity.isFinite current ∧
        Quantity.isFinite (voltage * current)) ∧
      t = ⟨resistance, voltage, current, voltage * current⟩ := by
  unfold totals
  by_cases hv : Quantity.isFinite voltage
  · by_cases hc : Quantity.isFinite current
    · by_cases hp : Quantity.isFinite (voltage * current)
      · simp [hv, hc, hp, eq_comm]
      · simp [hv, hc, hp]
    · simp [hv, hc]
  · simp [hv]

theorem Supply.isFinite_of_resolve {s : Supply R} {resistance : R} {t : Totals R}
    (h : s.resolve resistance = .ok t) : Quantity.isFinite resistance := by
  unfold resolve at h
  split at h
  · cases h
  · simp_all

/-- **What a supply can do**: a voltage drives a current through a resistance
that is not zero, and a current drops a voltage across any resistance. -/
theorem Supply.resolve_cases {s : Supply R} {resistance : R} {t : Totals R}
    (h : s.resolve resistance = .ok t) :
    (∃ v, s = .voltage v ∧ 0 < v ∧ 0 < resistance ∧
      t = ⟨resistance, v, v / resistance, v * (v / resistance)⟩) ∨
    ∃ i, s = .current i ∧ 0 < i ∧ t = ⟨resistance, i * resistance, i, i * resistance * i⟩ := by
  unfold resolve at h
  split at h
  · cases h
  · cases s with
    | voltage v =>
      by_cases hv : 0 < v
      · by_cases hr : 0 < resistance
        · simp only [hv, hr, decide_true, Bool.not_true, Bool.false_eq_true, if_false] at h
          exact .inl ⟨v, rfl, hv, hr, (totals_eq_ok_iff.mp h).2⟩
        · simp [hv, hr] at h
      · simp [hv] at h
    | current i =>
      by_cases hi : 0 < i
      · simp only [hi, decide_true, Bool.not_true, Bool.false_eq_true, if_false] at h
        exact .inr ⟨i, rfl, hi, (totals_eq_ok_iff.mp h).2⟩
      · simp [hi] at h

/-- **How a circuit comes about**: the canonical form is sound, and the supply
meets its resistance in the totals it is solved for. -/
theorem Circuit.ofDescription_eq_ok_iff {d : Description R} {c : Circuit R} :
    ofDescription d = .ok c ↔ d.topology.normalize.Sound ∧
      ∃ totals, d.supply.resolve d.topology.normalize.resistance = .ok totals ∧
        c = ⟨d.name, d.supply,
          ((d.topology.normalize.propagate totals.current).assignLabels {}).1, totals⟩ := by
  rw [← Chain.validate_eq_ok_iff]
  simp only [ofDescription, bind, Except.bind]
  cases d.topology.normalize.validate with
  | error cause => simp
  | ok u =>
    cases d.supply.resolve d.topology.normalize.resistance with
    | error cause => simp
    | ok totals => simp [eq_comm]

section

variable {d : Description R} {c : Circuit R}

/-- **A circuit is its labelled network, solved** for the current of the supply. -/
theorem Circuit.exists_network (h : ofDescription d = .ok c) :
    ∃ network : Chain R, network.Sound ∧
      d.supply.resolve network.resistance = .ok c.totals ∧
      c.root = network.propagate c.totals.current := by
  obtain ⟨normal_sound, totals, resolved, rfl⟩ := ofDescription_eq_ok_iff.mp h
  refine ⟨(d.topology.normalize.assignLabels {}).1, normal_sound.assignLabels {}, ?_, ?_⟩
  · rw [Chain.resistance_assignLabels]
    exact resolved
  · rw [Chain.assignLabels_propagate]

/-- Solving and labelling keep what validation has checked. -/
theorem Circuit.sound_root (h : ofDescription d = .ok c) : c.root.Sound := by
  obtain ⟨normal_sound, totals, -, rfl⟩ := ofDescription_eq_ok_iff.mp h
  exact (d.topology.normalize.forall_components_solved Element.sound_unlabelled
    Element.sound_unsolved _ _).mpr normal_sound

/-- Solving and labelling keep the canonical form. -/
theorem Circuit.isCanonical_root (h : ofDescription d = .ok c) : c.root.isCanonical := by
  obtain ⟨normal_sound, totals, -, rfl⟩ := ofDescription_eq_ok_iff.mp h
  refine Chain.isCanonical_iff.mpr ?_
  exact (d.topology.normalize.forall_components_solved Element.isSettled_unlabelled
    Element.isSettled_unsolved _ _).mpr
      (Chain.isCanonical_iff.mp (Chain.isCanonical_normalize_of_branching normal_sound.branching))

theorem Circuit.labels_components (h : ofDescription d = .ok c) :
    c.root.components.map Element.label = (List.range' 1 c.root.size).map label := by
  obtain ⟨-, totals, -, rfl⟩ := ofDescription_eq_ok_iff.mp h
  rw [← Chain.length_components]
  exact ((d.topology.normalize.propagate totals.current).labels_assignLabels {}).1

end

/-! ## The invariant -/

/-- What holds of every circuit, at every depth of its network. -/
structure Circuit.WellFormed (c : Circuit R) : Prop where
  canonical : c.root.isCanonical
  /-- A group has two branches or more, none of them a group on its own. -/
  branching : ∀ l v bs, .group l v bs ∈ c.root.components →
    2 ≤ bs.length ∧ ∀ b ∈ bs, ¬b.isLoneGroup
  /-- A resistance is a number that is not negative. -/
  resistance : ∀ l v r, .resistor l v r ∈ c.root.components → Quantity.isFinite r ∧ ¬r < 0
  /-- The resistance of a branch is a number other than zero. -/
  branch_resistance : ∀ l v bs, .group l v bs ∈ c.root.components →
    ∀ b ∈ bs, Quantity.isFinite b.resistance ∧ (b.resistance == 0) = false
  /-- The components are those of the network. -/
  components : c.components = c.root.components
  /-- The components have the labels from the first one on, one for each. -/
  labels : c.root.components.map Element.label = (List.range' 1 c.root.size).map label

/-- **Every circuit is well formed**, whatever the description it is built from. -/
theorem ofDescription_wellFormed {d : Description R} {c : Circuit R}
    (h : Circuit.ofDescription d = .ok c) : c.WellFormed := by
  have sound : ∀ e ∈ c.root.components, e.Sound := Circuit.sound_root h
  have canonical := Circuit.isCanonical_root h
  have settled : ∀ e ∈ c.root.components, e.isSettled := Chain.isCanonical_iff.mp canonical
  exact {
    canonical := canonical
    branching := fun l v bs he =>
      ⟨(sound _ he).1, (Element.isSettled_group_iff.mp (settled _ he)).2⟩
    resistance := fun l v r he => sound _ he
    branch_resistance := fun l v bs he => (sound _ he).2
    components := rfl
    labels := Circuit.labels_components h }

/-- An empty group between two branches, one of which has a wrapped resistor:
1 Ω before {2 Ω} beside nothing beside 3 Ω, at 12 V. -/
def emptyBranch : Description Float :=
  ⟨"", .voltage 12, .last (.parallel [
    .link (.ofResistance 1) (.last (.parallel [.last (.ofResistance 2)])),
    .last (.parallel []), .last (.ofResistance 3)])⟩

theorem ofDescription_wellFormed_emptyBranch :
    ∃ c, Circuit.ofDescription emptyBranch = .ok c ∧ c.WellFormed := by
  have built : (Circuit.ofDescription emptyBranch).isOk := by decide +kernel
  obtain ⟨c, h⟩ := exists_eq_ok_of_isOk built
  exact ⟨c, h, ofDescription_wellFormed h⟩

end SeriesParallel
