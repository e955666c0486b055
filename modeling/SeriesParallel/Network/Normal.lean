import SeriesParallel.Network.PreOrder

/-!
# Network — canonical form

Two rewrites leave the electrical meaning of a network alone. **Collapsing**
puts the branch of a one-branch group in the group's place. **Flattening** puts
the branches of a group that is a branch on its own among the branches of the
group around it. A network is canonical when neither applies.
-/

namespace SeriesParallel

variable {R : Type}

/-! ## Collapsing one-branch groups -/

mutual

/-- The chain that takes an element's place. -/
def Element.collapse : Element R → Chain R
  | .resistor l v r => .last (.resistor l v r)
  | .group _ _ [b] => b.collapse
  | .group l v bs => .last (.group l v (collapseBranches bs))

/-- The chain without one-branch groups at any depth. -/
def Chain.collapse : Chain R → Chain R
  | .last e => e.collapse
  | .link e c => e.collapse ++ c.collapse

/-- Branches, each without one-branch groups. -/
def collapseBranches : List (Chain R) → List (Chain R)
  | [] => []
  | b :: bs => b.collapse :: collapseBranches bs

end

theorem collapseBranches_eq_map (bs : List (Chain R)) :
    collapseBranches bs = bs.map Chain.collapse := by
  induction bs with
  | nil => rfl
  | cons b bs ih => simp [collapseBranches, ih]

/-! ## Flattening nested groups -/

/-- The branches that a branch stands for in the group around it: those of a
group that is the whole branch, else the branch itself. -/
def Chain.spliced : Chain R → List (Chain R)
  | .last (.group _ _ bs) => bs
  | c => [c]

mutual

/-- The element with nested groups flattened at every depth. -/
def Element.flatten : Element R → Element R
  | .resistor l v r => .resistor l v r
  | .group l v bs => .group l v (flattenBranches bs)

/-- The chain with nested groups flattened at every depth. -/
def Chain.flatten : Chain R → Chain R
  | .last e => .last e.flatten
  | .link e c => .link e.flatten c.flatten

/-- Branches, flattened and then spliced. -/
def flattenBranches : List (Chain R) → List (Chain R)
  | [] => []
  | b :: bs => b.flatten.spliced ++ flattenBranches bs

end

theorem flattenBranches_eq_flatMap (bs : List (Chain R)) :
    flattenBranches bs = bs.flatMap fun b => b.flatten.spliced := by
  induction bs with
  | nil => rfl
  | cons b bs ih => simp [flattenBranches, ih]

/-- The canonical form of a network. -/
def Chain.normalize (c : Chain R) : Chain R := c.collapse.flatten

/-! ## The canonical networks -/

/-- Whether a chain is a group and nothing else. -/
def Chain.isLoneGroup : Chain R → Bool
  | .last (.group ..) => true
  | _ => false

/-- Whether neither rewrite applies to an element itself. -/
def Element.isSettled : Element R → Bool
  | .resistor .. => true
  | .group _ _ bs => bs.length != 1 && bs.all (!·.isLoneGroup)

/-- Whether a network is canonical: no group at any depth has exactly one
branch, and no branch is a group on its own. -/
def Chain.isCanonical (c : Chain R) : Bool := c.preOrder.all (·.head.isSettled)

end SeriesParallel
