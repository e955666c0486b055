import SeriesParallel.Network.Basic

/-!
# Network — networks as text

The structure text of a network shows its shape and its resistances: `(R 100)`
for a resistor, the branches of a group between braces with commas between
them, and the elements of a chain one after another. A number is spelled by a
function that the caller gives.
-/

namespace SeriesParallel

variable {R : Type} (number : R → String)

mutual

/-- The structure text of an element. -/
def Element.spelling : Element R → List Char
  | .resistor _ _ r => '(' :: 'R' :: ' ' :: (number r).toList ++ [')']
  | .group _ _ bs => '\x7b' :: branchSpelling bs ++ ['\x7d']

/-- The structure text of a chain. -/
def Chain.spelling : Chain R → List Char
  | .last e => e.spelling
  | .link e c => e.spelling ++ c.spelling

/-- The structure texts of branches, with commas between them. -/
def branchSpelling : List (Chain R) → List Char
  | [] => []
  | [b] => b.spelling
  | b :: c :: bs => b.spelling ++ ',' :: branchSpelling (c :: bs)

end

/-- The structure text of a chain: `(R 100)` and the like, one after another. -/
def Chain.structure (c : Chain R) : String := String.ofList (c.spelling number)

/-- One line about an element: its kind, label, content and reading. -/
def Element.summary (e : Element R) : String :=
  let v := e.reading
  let rest := number v.voltage ++ " V, " ++ number v.current ++ " A, " ++ number v.power ++ " W)"
  match e with
  | .resistor l _ r => "Resistor " ++ l ++ " (" ++ number r ++ " Ohms, " ++ rest
  | .group l _ bs => "Branch " ++ l ++ " (" ++ toString bs.length ++ " branches, " ++ rest

end SeriesParallel
