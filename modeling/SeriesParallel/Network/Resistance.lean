import SeriesParallel.Network.Basic

/-!
# Network — equivalent resistance

Elements in series add their resistances. A group presents the reciprocal of
the sum of its branches' reciprocals.
-/

namespace SeriesParallel

variable {R : Type} [Quantity R]

mutual

/-- The resistance an element presents to its chain. -/
def Element.resistance : Element R → R
  | .resistor _ _ r => r
  | .group _ _ bs => 1 / Quantity.sum (conductances bs)

/-- The resistances of the elements of a chain. -/
def Chain.resistances : Chain R → List R
  | .last e => [e.resistance]
  | .link e c => e.resistance :: c.resistances

/-- The reciprocals of the resistances of branches. -/
def conductances : List (Chain R) → List R
  | [] => []
  | b :: bs => 1 / Quantity.sum b.resistances :: conductances bs

end

/-- The resistance of a whole chain. -/
def Chain.resistance (c : Chain R) : R := Quantity.sum c.resistances

/-- The resistance of one branch of a group, if there is such a branch. -/
def Element.branchResistance? (e : Element R) (index : Nat) : Option R :=
  e.branches[index]?.map Chain.resistance

theorem Chain.resistances_eq_map (c : Chain R) :
    c.resistances = c.elements.map Element.resistance := by
  match c with
  | .last e => rfl
  | .link e c => simp [resistances, elements, resistances_eq_map c]

theorem conductances_eq_map (bs : List (Chain R)) :
    conductances bs = bs.map fun b => 1 / b.resistance := by
  induction bs with
  | nil => rfl
  | cons b bs ih => simp [conductances, Chain.resistance, ih]

/-- **The resistance of a group** is the reciprocal of the sum of its branches'
reciprocals. -/
theorem Element.resistance_group (l : String) (v : Reading R) (bs : List (Chain R)) :
    (Element.group l v bs).resistance = 1 / Quantity.sum (bs.map fun b => 1 / b.resistance) := by
  rw [Element.resistance, conductances_eq_map]

end SeriesParallel
