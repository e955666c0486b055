import SeriesParallel.Quantity

/-!
# Network — elements and chains

A network is a **chain**: one or more elements in series. An **element** is a
resistor or a parallel group, and a group holds its branches, each a chain of
its own. A chain is never empty; a group may have any number of branches.

Every element carries a label and a reading. Both are blank until the network
is labelled and solved.
-/

namespace SeriesParallel

/-- Voltage across, current through and power dissipated in an element. -/
structure Reading (R : Type) where
  voltage : R
  current : R
  power : R
  deriving Repr, DecidableEq

/-- The reading of an element that has not been solved. -/
def Reading.blank {R : Type} [Zero R] : Reading R := ⟨0, 0, 0⟩

mutual

/-- A resistor or a parallel group. -/
inductive Element (R : Type) where
  | resistor (label : String) (reading : Reading R) (resistance : R)
  | group (label : String) (reading : Reading R) (branches : List (Chain R))

/-- One or more elements in series. -/
inductive Chain (R : Type) where
  | last (element : Element R)
  | link (element : Element R) (rest : Chain R)

end

variable {R : Type}

/-! ## Elements -/

namespace Element

/-- The label of an element. -/
def label : Element R → String
  | resistor l _ _ => l
  | group l _ _ => l

/-- The reading of an element. -/
def reading : Element R → Reading R
  | resistor _ v _ => v
  | group _ v _ => v

/-- The branches of a group; a resistor has none. -/
def branches : Element R → List (Chain R)
  | resistor .. => []
  | group _ _ bs => bs

/-- Whether an element is a single resistor. -/
def isResistor : Element R → Bool
  | resistor .. => true
  | group .. => false

/-- The element under another label. -/
def relabel (l : String) : Element R → Element R
  | resistor _ v r => resistor l v r
  | group _ v bs => group l v bs

/-- A resistor without label or reading. -/
def ofResistance [Zero R] (r : R) : Element R := resistor "" .blank r

/-- A parallel group without label or reading. -/
def parallel [Zero R] (bs : List (Chain R)) : Element R := group "" .blank bs

end Element

/-! ## Chains -/

namespace Chain

/-- The elements of a chain, in order: the view every operation on chains is
stated through. -/
def elements : Chain R → List (Element R)
  | last e => [e]
  | link e c => e :: c.elements

/-- The first element of a chain. -/
def head : Chain R → Element R
  | last e => e
  | link e _ => e

/-- What follows the first element, if anything does. -/
def rest? : Chain R → Option (Chain R)
  | last _ => none
  | link _ c => some c

/-- The number of elements of a chain, not counting what is inside groups. -/
def length (c : Chain R) : Nat := c.elements.length

/-- Two chains in series. -/
def append : Chain R → Chain R → Chain R
  | last e, d => link e d
  | link e c, d => link e (c.append d)

instance : Append (Chain R) := ⟨append⟩

/-- The chain of a first element and the elements after it. -/
def ofHead : Element R → List (Element R) → Chain R
  | e, [] => last e
  | e, f :: es => link e (ofHead f es)

/-- The chain of a list of elements; there is none for the empty list. -/
def ofElements? : List (Element R) → Option (Chain R)
  | [] => none
  | e :: es => some (ofHead e es)

/-- The chain with its first element under another label. -/
def relabelHead (l : String) : Chain R → Chain R
  | last e => last (e.relabel l)
  | link e c => link (e.relabel l) c

@[simp] theorem elements_append (c d : Chain R) :
    (c ++ d).elements = c.elements ++ d.elements := by
  match c with
  | last e => rfl
  | link e c => exact congrArg (e :: ·) (elements_append c d)

theorem elements_ne_nil (c : Chain R) : c.elements ≠ [] := by
  cases c <;> simp [elements]

/-- A chain is determined by its elements. -/
theorem ofElements?_elements (c : Chain R) : ofElements? c.elements = some c := by
  match c with
  | last e => rfl
  | link e c =>
    have ih := ofElements?_elements c
    revert ih
    cases h : c.elements with
    | nil => exact absurd h c.elements_ne_nil
    | cons f es =>
      intro ih
      simp only [ofElements?, Option.some.injEq] at ih
      simp [elements, h, ofElements?, ofHead, ih]

end Chain

/-! ## Equality of the numbers a network holds -/

section

variable [BEq R]

/-- Readings agree when their quantities do, in the sense of `==` on `R`. -/
def Reading.same (v w : Reading R) : Bool :=
  v.voltage == w.voltage && v.current == w.current && v.power == w.power

mutual

/-- Elements agree in kind, label, reading and content. On binary64 an
undefined number differs from itself and the two zeros agree. -/
def Element.same : Element R → Element R → Bool
  | .resistor l v r, .resistor l' v' r' => l == l' && v.same v' && r == r'
  | .group l v bs, .group l' v' bs' => l == l' && v.same v' && sameBranches bs bs'
  | _, _ => false

/-- Chains agree element by element. -/
def Chain.same : Chain R → Chain R → Bool
  | .last e, .last f => e.same f
  | .link e c, .link f d => e.same f && c.same d
  | _, _ => false

/-- Branch lists agree branch by branch. -/
def sameBranches : List (Chain R) → List (Chain R) → Bool
  | [], [] => true
  | b :: bs, c :: cs => b.same c && sameBranches bs cs
  | _, _ => false

end

instance : BEq (Element R) := ⟨Element.same⟩

instance : BEq (Chain R) := ⟨Chain.same⟩

end

end SeriesParallel
