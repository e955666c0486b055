import Mathlib.Data.List.Basic
import SeriesParallel.Network.Propagation
import SeriesParallel.Proofs.Network.Components

/-!
# Network — what is left without readings

Two networks that differ in their readings only are the same once the readings
are blanked. Neither resistances nor propagation look at a reading that is
there already, and propagation changes nothing else.
-/

namespace SeriesParallel

variable {R : Type}

section

variable [Zero R]

mutual

/-- The element with every reading blank. -/
def Element.unsolved : Element R → Element R
  | .resistor l _ r => .resistor l .blank r
  | .group l _ bs => .group l .blank (unsolvedBranches bs)

/-- The chain with every reading blank. -/
def Chain.unsolved : Chain R → Chain R
  | .last e => .last e.unsolved
  | .link e c => .link e.unsolved c.unsolved

/-- Branches with every reading blank. -/
def unsolvedBranches : List (Chain R) → List (Chain R)
  | [] => []
  | b :: bs => b.unsolved :: unsolvedBranches bs

end

theorem unsolvedBranches_eq_map (bs : List (Chain R)) :
    unsolvedBranches bs = bs.map Chain.unsolved := by
  induction bs with
  | nil => rfl
  | cons b bs ih => simp [unsolvedBranches, ih]

end

/-- Blanking the readings works component by component. -/
theorem Chain.components_unsolved [Zero R] (c : Chain R) :
    c.unsolved.components = c.components.map Element.unsolved := by
  induction c using Chain.inductionOn with
  | resistor l v r => simp [unsolved, Element.unsolved]
  | group l v bs ih =>
    simp only [unsolved, Element.unsolved, unsolvedBranches_eq_map, components_group,
      List.map_cons, List.flatMap_map, List.map_flatMap]
    congr 1
    exact List.flatMap_congr ih
  | link e c he hc =>
    simp only [unsolved] at he
    simp [unsolved, he, hc]

variable [Quantity R]

/-- What a solved element reads. -/
theorem Element.reading_propagate (e : Element R) (current : R) :
    (e.propagate current).reading = .ofCurrent current e.resistance := by
  cases e <;> rfl

theorem Chain.head_propagate (c : Chain R) (current : R) :
    (c.propagate current).head = c.head.propagate current := by
  cases c <;> rfl

/-- Resistances do not depend on readings. -/
theorem Chain.resistances_unsolved (c : Chain R) : c.unsolved.resistances = c.resistances := by
  induction c using Chain.inductionOn with
  | resistor l v r => rfl
  | group l v bs ih =>
    have branches : (bs.map Chain.unsolved).map (fun b => 1 / b.resistance)
        = bs.map fun b => 1 / b.resistance := by
      rw [List.map_map]
      refine List.map_congr_left fun b hb => ?_
      simp only [Function.comp_apply, resistance, ih b hb]
    simp only [unsolved, Element.unsolved, resistances, unsolvedBranches_eq_map,
      Element.resistance_group, branches]
  | link e c he hc => simp_all [unsolved, resistances]

theorem Chain.resistance_unsolved (c : Chain R) : c.unsolved.resistance = c.resistance := by
  rw [resistance, resistances_unsolved, resistance]

theorem Element.resistance_unsolved (e : Element R) : e.unsolved.resistance = e.resistance := by
  simpa [Chain.unsolved, Chain.resistances] using Chain.resistances_unsolved (.last e)

/-- **Propagation changes readings only.** -/
theorem Chain.unsolved_propagate (c : Chain R) (current : R) :
    (c.propagate current).unsolved = c.unsolved := by
  induction c using Chain.inductionOn generalizing current with
  | resistor l v r => rfl
  | group l v bs ih =>
    simp only [propagate, Element.propagate, unsolved, Element.unsolved, unsolvedBranches_eq_map,
      propagateBranches_eq_map, List.map_map]
    congr 2
    exact List.map_congr_left fun b hb => ih b hb _
  | link e c he hc =>
    have head := he current
    simp only [propagate, unsolved, last.injEq] at head
    simp only [propagate, unsolved, head, hc]

theorem Chain.resistance_propagate (c : Chain R) (current : R) :
    (c.propagate current).resistance = c.resistance := by
  rw [← resistance_unsolved, unsolved_propagate, resistance_unsolved]

theorem Element.resistance_propagate (e : Element R) (current : R) :
    (e.propagate current).resistance = e.resistance := by
  have solved := Chain.unsolved_propagate (.last e) current
  rw [Chain.propagate, Chain.unsolved, Chain.unsolved, Chain.last.injEq] at solved
  rw [← resistance_unsolved, solved, resistance_unsolved]

/-- **Propagation does not look at readings.** -/
theorem Chain.propagate_unsolved (c : Chain R) (current : R) :
    c.unsolved.propagate current = c.propagate current := by
  induction c using Chain.inductionOn generalizing current with
  | resistor l v r => rfl
  | group l v bs ih =>
    have outer : (Element.group l v bs).unsolved.resistance = (Element.group l v bs).resistance :=
      Element.resistance_unsolved _
    simp only [Element.unsolved, unsolvedBranches_eq_map] at outer
    simp only [unsolved, Element.unsolved, propagate, Element.propagate, unsolvedBranches_eq_map,
      propagateBranches_eq_map, List.map_map, outer]
    congr 2
    refine List.map_congr_left fun b hb => ?_
    simp only [Function.comp_apply, resistance_unsolved, ih b hb]
  | link e c he hc =>
    have head := he current
    simp only [propagate, unsolved, last.injEq] at head
    simp only [propagate, unsolved, head, hc]

/-- Networks that differ in readings only are solved alike. -/
theorem Chain.propagate_eq_of_unsolved_eq {c d : Chain R} (h : d.unsolved = c.unsolved)
    (current : R) : d.propagate current = c.propagate current := by
  rw [← propagate_unsolved, h, propagate_unsolved]

end SeriesParallel
