import Mathlib.Tactic.NormNum
import SeriesParallel.Proofs.Network.NormalForm
import SeriesParallel.Proofs.Network.Rational

/-!
# Network — the canonical form has the meaning of the network

Over exact rationals a network and its canonical form have one resistance, and
solving them gives every resistor the same reading. Inlining a one-branch group
hands its branch the current of the chain, as the group did. Splicing a lone
group hands its branches the voltage of the group around it, which is the
voltage across the lone group.
-/

namespace SeriesParallel

/-! ## Series connection -/

namespace Chain

theorem resistance_append (c d : Chain Rat) :
    (c ++ d).resistance = c.resistance + d.resistance := by
  rw [resistance_eq_sum, elements_append, List.map_append, List.sum_append, ← resistance_eq_sum,
    ← resistance_eq_sum]

theorem propagate_append (c d : Chain Rat) (current : Rat) :
    (c ++ d).propagate current = c.propagate current ++ d.propagate current := by
  match c with
  | last e => rfl
  | link e c =>
    rw [link_append, propagate, propagate_append c d current, propagate, link_append]

end Chain

/-! ## Branches and what they stand for -/

theorem conductance_flatMap (f : Chain Rat → List (Chain Rat)) (bs : List (Chain Rat)) :
    conductance (bs.flatMap f) = (bs.map fun b => conductance (f b)).sum := by
  induction bs with
  | nil => rfl
  | cons b bs ih =>
    rw [List.flatMap_cons, List.map_cons, List.sum_cons, ← ih, conductance, List.map_append,
      List.sum_append, conductance, conductance]

/-- The resistors of branches that a voltage is across, solved. -/
def solvedResistors (voltage : Rat) (bs : List (Chain Rat)) : List (Element Rat) :=
  (propagateBranches voltage bs).flatMap Chain.resistors

theorem solvedResistors_eq_flatMap (voltage : Rat) (bs : List (Chain Rat)) :
    solvedResistors voltage bs
      = bs.flatMap fun b => (b.propagate (voltage / b.resistance)).resistors := by
  rw [solvedResistors, propagateBranches_eq_map, List.flatMap_map]

theorem Chain.resistors_propagate_group (l : String) (v : Reading Rat) (bs : List (Chain Rat))
    (current : Rat) :
    ((last (.group l v bs)).propagate current).resistors
      = solvedResistors (current * (1 / conductance bs)) bs := by
  rw [propagate, Element.propagate, resistors_group, Reading.ofCurrent,
    Element.resistance_group_eq, solvedResistors]

/-- **What a branch stands for conducts as the branch does.** -/
theorem conductance_spliced (b : Chain Rat) : conductance b.spliced = 1 / b.resistance := by
  have alone (b : Chain Rat) : conductance [b] = 1 / b.resistance := by
    simp [conductance]
  cases b with
  | link e c => exact alone _
  | last e =>
    cases e with
    | resistor l v r => exact alone _
    | group l v bs =>
      rw [Chain.resistance_last, Element.resistance_group_eq, one_div_one_div]
      rfl

/-- **What a branch stands for is solved as the branch is**, for the voltage
across it. -/
theorem solvedResistors_spliced {b : Chain Rat} (h : b.resistance ≠ 0) (voltage : Rat) :
    solvedResistors voltage b.spliced = (b.propagate (voltage / b.resistance)).resistors := by
  have alone (b : Chain Rat) :
      solvedResistors voltage [b] = (b.propagate (voltage / b.resistance)).resistors := by
    rw [solvedResistors_eq_flatMap, List.flatMap_singleton]
  match b with
  | .last (.resistor l v r) => exact alone _
  | .last (.group l v bs) =>
    have across : voltage / (Chain.last (.group l v bs)).resistance * (1 / conductance bs)
        = voltage := by
      rw [← Element.resistance_group_eq l v, ← Chain.resistance_last, div_mul_cancel₀ _ h]
    rw [Chain.resistors_propagate_group, across]
    rfl
  | .link e c => exact alone _

/-! ## The canonical form -/

/-- A network with the resistance of another one, whose resistors have the
readings of those of the other one, whatever current enters both. -/
structure Chain.SolvedAs (c d : Chain Rat) : Prop where
  resistance_eq : c.resistance = d.resistance
  resistors_eq : ∀ current, (c.propagate current).resistors = (d.propagate current).resistors

namespace Chain.SolvedAs

theorem append {b b' c c' : Chain Rat} (hb : b.SolvedAs b') (hc : c.SolvedAs c') :
    (b ++ c).SolvedAs (b' ++ c') where
  resistance_eq := by
    rw [resistance_append, resistance_append, hb.resistance_eq, hc.resistance_eq]
  resistors_eq := by
    intro current
    rw [propagate_append, propagate_append, resistors_append, resistors_append,
      hb.resistors_eq, hc.resistors_eq]

/-- A branch takes the place of the group that has no other branch. -/
theorem one_branch {l : String} {v : Reading Rat} {b : Chain Rat} (h : b.resistance ≠ 0) :
    b.SolvedAs (last (.group l v [b])) where
  resistance_eq := by
    rw [resistance_last, Element.resistance_group_eq, conductance, List.map_singleton,
      List.sum_singleton, one_div_one_div]
  resistors_eq := by
    intro current
    have entering : current * (1 / conductance [b]) / b.resistance = current := by
      rw [conductance, List.map_singleton, List.sum_singleton, one_div_one_div,
        mul_div_cancel_right₀ _ h]
    rw [resistors_propagate_group, solvedResistors_eq_flatMap, List.flatMap_singleton, entering]

/-- Branches may be replaced by others that are solved as they are, spliced. -/
theorem spliced {f : Chain Rat → Chain Rat} {l : String} {v : Reading Rat}
    {bs : List (Chain Rat)} (hf : ∀ b ∈ bs, (f b).SolvedAs b)
    (hne : ∀ b ∈ bs, b.resistance ≠ 0) :
    (last (.group l v (bs.flatMap fun b => (f b).spliced))).SolvedAs (last (.group l v bs)) := by
  have conducts : conductance (bs.flatMap fun b => (f b).spliced) = conductance bs := by
    rw [conductance_flatMap, conductance]
    congr 1
    refine List.map_congr_left fun b hb => ?_
    rw [conductance_spliced, (hf b hb).resistance_eq]
  constructor
  · rw [resistance_last, resistance_last, Element.resistance_group_eq,
      Element.resistance_group_eq, conducts]
  · intro current
    let voltage := current * (1 / conductance bs)
    have branch (b : Chain Rat) (hb : b ∈ bs) :
        solvedResistors voltage (f b).spliced
          = (b.propagate (voltage / b.resistance)).resistors := by
      have ne_zero : (f b).resistance ≠ 0 := by
        rw [(hf b hb).resistance_eq]
        exact hne b hb
      rw [solvedResistors_spliced ne_zero, (hf b hb).resistors_eq, (hf b hb).resistance_eq]
    rw [resistors_propagate_group, resistors_propagate_group, conducts,
      solvedResistors_eq_flatMap voltage bs]
    calc solvedResistors voltage (bs.flatMap fun b => (f b).spliced)
        = bs.flatMap fun b => solvedResistors voltage (f b).spliced := by
          simp only [solvedResistors_eq_flatMap, List.flatMap_assoc]
      _ = bs.flatMap fun b => (b.propagate (voltage / b.resistance)).resistors :=
          List.flatMap_congr branch

end Chain.SolvedAs

theorem Chain.solvedAs_normalize {c : Chain Rat} (h : c.Unshorted) : c.normalize.SolvedAs c := by
  induction c using Chain.inductionOn with
  | resistor l v r => exact ⟨rfl, fun _ => rfl⟩
  | group l v bs ih =>
    have branches : ∀ b ∈ bs, b.normalize.SolvedAs b := fun b hb => ih b hb (h.branch hb).2
    have ne_zero : ∀ b ∈ bs, b.resistance ≠ 0 := fun b hb => (h.branch hb).1
    by_cases hone : bs.length = 1
    · obtain ⟨b, rfl⟩ := List.length_eq_one_iff.mp hone
      rw [normalize_one_branch]
      have inner := branches b List.mem_cons_self
      have outer := SolvedAs.one_branch (l := l) (v := v) (ne_zero b List.mem_cons_self)
      exact ⟨inner.resistance_eq.trans outer.resistance_eq,
        fun current => (inner.resistors_eq current).trans (outer.resistors_eq current)⟩
    · rw [normalize_group l v hone]
      exact .spliced branches ne_zero
  | link e c he hc =>
    rw [normalize_link, ← last_append]
    exact (he h.link.1).append (hc h.link.2)

/-- **Normalization keeps the electrical meaning** of a network without short
circuits: the resistance stays, and whatever current enters, the resistors in
canonical order, with the readings that solving gives them, are the same. -/
theorem normalize_keeps_solution {c : Chain Rat} (h : c.Unshorted) (current : Rat) :
    c.normalize.resistance = c.resistance ∧
      (c.normalize.propagate current).resistors = (c.propagate current).resistors :=
  ⟨(Chain.solvedAs_normalize h).resistance_eq, (Chain.solvedAs_normalize h).resistors_eq current⟩

/-- Both rewrites at work: 1 Ω before {{2 Ω, 3 Ω}} in a group of its own, beside
the lone group {4 Ω, 5 Ω}. -/
def wrappedBeforeLone : Chain Rat :=
  .last (.parallel [
    .last (.parallel [.link (.ofResistance 1) (.last (.parallel [
      .last (.parallel [.last (.ofResistance 2), .last (.ofResistance 3)])]))]),
    .last (.parallel [.last (.ofResistance 4), .last (.ofResistance 5)])])

theorem normalize_keeps_solution_wrappedBeforeLone :
    wrappedBeforeLone.Unshorted ∧
      wrappedBeforeLone.normalize.resistance = wrappedBeforeLone.resistance ∧
      (wrappedBeforeLone.normalize.propagate 7).resistors
        = (wrappedBeforeLone.propagate 7).resistors := by
  have h : wrappedBeforeLone.Unshorted := by
    intro l v bs hmem
    simp only [wrappedBeforeLone, Element.ofResistance, Element.parallel, Chain.components_link,
      Chain.components_resistor, Chain.components_group, List.mem_append, List.mem_cons,
      List.flatMap_cons, List.flatMap_nil, List.not_mem_nil, reduceCtorEq, Element.group.injEq,
      false_or, or_false] at hmem
    rcases hmem with ⟨-, -, rfl⟩ | (⟨-, -, rfl⟩ | ⟨-, -, rfl⟩ | ⟨-, -, rfl⟩) | ⟨-, -, rfl⟩ <;>
      norm_num [Element.resistance, conductances, Chain.resistances, Quantity.sum_eq_sum]
  exact ⟨h, normalize_keeps_solution h 7⟩

end SeriesParallel
