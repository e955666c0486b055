import SeriesParallel.Network.Resistance

/-!
# Network — voltages, currents and powers

The current that enters a chain flows through each of its elements. An element
drops the voltage that Ohm's law gives, and a group hands each branch the
current that this voltage drives through it.
-/

namespace SeriesParallel

variable {R : Type} [Quantity R]

/-- The reading of an element of some resistance that carries some current. -/
def Reading.ofCurrent (current resistance : R) : Reading R :=
  let voltage := current * resistance
  ⟨voltage, current, voltage * current⟩

mutual

/-- The element, solved at every depth for the current that it carries. -/
def Element.propagate (current : R) : Element R → Element R
  | .resistor l _ r => .resistor l (.ofCurrent current r) r
  | .group l v bs =>
    let w := Reading.ofCurrent current (Element.group l v bs).resistance
    .group l w (propagateBranches w.voltage bs)

/-- The chain, solved at every depth for the current that enters it. -/
def Chain.propagate (current : R) : Chain R → Chain R
  | .last e => .last (e.propagate current)
  | .link e c => .link (e.propagate current) (c.propagate current)

/-- Branches, solved for the voltage across all of them. -/
def propagateBranches (voltage : R) : List (Chain R) → List (Chain R)
  | [] => []
  | b :: bs => b.propagate (voltage / b.resistance) :: propagateBranches voltage bs

end

theorem propagateBranches_eq_map (voltage : R) (bs : List (Chain R)) :
    propagateBranches voltage bs = bs.map fun b => b.propagate (voltage / b.resistance) := by
  induction bs with
  | nil => rfl
  | cons b bs ih => simp [propagateBranches, ih]

/-- **Every element of a chain carries the current that enters it.** -/
theorem Chain.elements_propagate (current : R) (c : Chain R) :
    (c.propagate current).elements = c.elements.map (Element.propagate current) := by
  match c with
  | .last e => rfl
  | .link e c => simp [propagate, elements, elements_propagate current c]

end SeriesParallel
