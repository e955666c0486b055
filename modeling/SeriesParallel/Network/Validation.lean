import SeriesParallel.Failure
import SeriesParallel.Network.PreOrder
import SeriesParallel.Network.Resistance

/-!
# Network — what can be solved

Every resistance must be a number that is not negative, every group must have
at least two branches, and the resistance of every branch must be a number
other than zero. The first violation in canonical order is reported.
-/

namespace SeriesParallel

variable {R : Type} [Quantity R]

/-- Checks the resistances of the branches of the group at `place`; `index` of
them have been checked before. -/
def checkBranches (place : Chain R) (index : Nat) : List (Chain R) → Except (Degeneracy R) Unit
  | [] => .ok ()
  | b :: bs =>
    if b.resistance == 0 then .error (.shortBranch (index + 1) place)
    else if !Quantity.isFinite b.resistance then .error (.unboundedBranch (index + 1) place)
    else checkBranches place (index + 1) bs

/-- Checks the element at a place, without what is inside its branches. -/
def Chain.checkHead (place : Chain R) : Except (Degeneracy R) Unit :=
  match place.head with
  | .resistor _ _ r =>
    if !Quantity.isFinite r || r < 0 then .error (.badResistance r) else .ok ()
  | .group _ _ bs =>
    if bs.length < 2 then .error (.fewBranches place) else checkBranches place 0 bs

/-- Checks places one after another. -/
def checkPlaces : List (Chain R) → Except (Degeneracy R) Unit
  | [] => .ok ()
  | place :: places => do
    place.checkHead
    checkPlaces places

/-- Checks a network. -/
def Chain.validate (c : Chain R) : Except (Failure R) Unit :=
  (checkPlaces c.preOrder).mapError .degenerate

end SeriesParallel
