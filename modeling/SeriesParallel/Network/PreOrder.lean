import SeriesParallel.Network.Basic

/-!
# Network — the walk in canonical order

The canonical order of a network is **pre-order**: an element, then each of
its branches in full, then the rest of its chain. A place in the network is
given by the chain that starts there, so that what follows an element in
series stays in view.

The walk keeps the places still to be visited on a stack. `Chain.nodes` is the
same order said by recursion on the tree.
-/

namespace SeriesParallel

variable {R : Type}

/-! ## Size of a network -/

mutual

/-- The number of elements in an element, itself included. -/
def Element.size : Element R → Nat
  | .resistor .. => 1
  | .group _ _ bs => 1 + branchSizes bs

/-- The number of elements in a chain, at every depth. -/
def Chain.size : Chain R → Nat
  | .last e => e.size
  | .link e c => e.size + c.size

/-- The number of elements in a list of branches. -/
def branchSizes : List (Chain R) → Nat
  | [] => 0
  | b :: bs => b.size + branchSizes bs

end

theorem branchSizes_append (bs cs : List (Chain R)) :
    branchSizes (bs ++ cs) = branchSizes bs + branchSizes cs := by
  induction bs with
  | nil => simp [branchSizes]
  | cons b bs ih => simp [branchSizes, ih]; omega

theorem Element.size_eq (e : Element R) : e.size = 1 + branchSizes e.branches := by
  cases e <;> simp [Element.size, Element.branches, branchSizes]

/-! ## The walk -/

/-- A walk over a network: the places still to be visited, next one first. -/
structure Walk (R : Type) where
  pending : List (Chain R)

namespace Walk

/-- The next place, and the walk after it: first the branches of the element
there, then the rest of its chain, then what was pending before. -/
def next? (w : Walk R) : Option (Chain R × Walk R) :=
  match w.pending with
  | [] => none
  | c :: cs => some (c, ⟨c.head.branches ++ c.rest?.toList ++ cs⟩)

/-- The number of places a walk has still to visit. -/
def size (w : Walk R) : Nat := branchSizes w.pending

/-- **A step visits one place.** -/
theorem size_next {w w' : Walk R} {c : Chain R} (h : w.next? = some (c, w')) :
    w.size = w'.size + 1 := by
  obtain ⟨pending⟩ := w
  cases pending with
  | nil => simp [next?] at h
  | cons b bs =>
    simp only [next?, Option.some.injEq, Prod.mk.injEq] at h
    obtain ⟨rfl, rfl⟩ := h
    cases b with
    | last e =>
      simp [size, branchSizes, Chain.size, Chain.head, Chain.rest?, branchSizes_append,
        Element.size_eq]
      omega
    | link e c =>
      simp [size, branchSizes, Chain.size, Chain.head, Chain.rest?, branchSizes_append,
        Element.size_eq]
      omega

/-- Every place a walk visits, in order. -/
def toList (w : Walk R) : List (Chain R) :=
  match _step : w.next? with
  | none => []
  | some (c, w') => c :: w'.toList
termination_by w.size
decreasing_by have := size_next _step; omega

end Walk

/-- Every place of a network in canonical order. -/
def Chain.preOrder (c : Chain R) : List (Chain R) := (Walk.mk [c]).toList

/-- Every element of a network in canonical order. -/
def Chain.components (c : Chain R) : List (Element R) := c.preOrder.map Chain.head

/-! ## The same order by recursion -/

mutual

/-- The places inside the branches of an element. -/
def Element.nodes : Element R → List (Chain R)
  | .resistor .. => []
  | .group _ _ bs => branchNodes bs

/-- The places of a chain: its head, what is inside the head, the rest. -/
def Chain.nodes : Chain R → List (Chain R)
  | .last e => .last e :: e.nodes
  | .link e c => .link e c :: (e.nodes ++ c.nodes)

/-- The places of a list of branches. -/
def branchNodes : List (Chain R) → List (Chain R)
  | [] => []
  | b :: bs => b.nodes ++ branchNodes bs

end

end SeriesParallel
