import SeriesParallel.Network.Basic

/-!
# Network — component labels

Components are named A, B, …, Z, AA, AB, … in canonical order. The names are
the numerals of base 26 with digits A to Z and no digit for zero.
-/

namespace SeriesParallel

variable {R : Type}

/-- The letters of the `n`-th label, the last one first. -/
def labelLetters (n : Nat) : List Char :=
  if n = 0 then []
  else Char.ofNat ('A'.toNat + (n - 1) % 26) :: labelLetters ((n - 1) / 26)
termination_by n
decreasing_by omega

/-- The `n`-th label, counted from one. -/
def label (n : Nat) : String := String.ofList (labelLetters n).reverse

/-- The labels from a number on. -/
structure LabelSequence where
  number : Nat := 1
  deriving Repr, DecidableEq

/-- The next label, and the labels after it. -/
def LabelSequence.next (s : LabelSequence) : String × LabelSequence :=
  (label s.number, ⟨s.number + 1⟩)

/-- The next `count` labels, and the labels after them. -/
def LabelSequence.take (s : LabelSequence) : (count : Nat) → List String × LabelSequence
  | 0 => ([], s)
  | count + 1 =>
    let (l, s) := s.next
    let (ls, s) := s.take count
    (l :: ls, s)

mutual

/-- The element with labels from a sequence: its own first, then those of what
is inside it. -/
def Element.assignLabels (s : LabelSequence) : Element R → Element R × LabelSequence
  | .resistor _ v r =>
    let (l, s) := s.next
    (.resistor l v r, s)
  | .group _ v bs =>
    let (l, s) := s.next
    let (bs, s) := assignBranchLabels s bs
    (.group l v bs, s)

/-- The chain with labels from a sequence, in canonical order. -/
def Chain.assignLabels (s : LabelSequence) : Chain R → Chain R × LabelSequence
  | .last e =>
    let (e, s) := e.assignLabels s
    (.last e, s)
  | .link e c =>
    let (e, s) := e.assignLabels s
    let (c, s) := c.assignLabels s
    (.link e c, s)

/-- Branches with labels from a sequence, one after another. -/
def assignBranchLabels (s : LabelSequence) :
    List (Chain R) → List (Chain R) × LabelSequence
  | [] => ([], s)
  | b :: bs =>
    let (b, s) := b.assignLabels s
    let (bs, s) := assignBranchLabels s bs
    (b :: bs, s)

end

end SeriesParallel
