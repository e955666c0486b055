import SeriesParallel.Decimal.Text
import SeriesParallel.Network.Basic
import SeriesParallel.Text.Quoted

/-!
# Network — everything a network holds, as text

The dump of a chain lists its elements with all their fields, and the branches
of a group with it. Numbers are written so that they read back exactly.
-/

namespace SeriesParallel

/-- Named fields between braces. -/
def dumpFields (name : String) (fields : List (String × List Char)) : List Char :=
  let field (f : String × List Char) : List Char := f.1.toList ++ ':' :: ' ' :: f.2
  name.toList ++ ' ' :: '\x7b' :: ' ' :: [',', ' '].intercalate (fields.map field) ++ [' ', '\x7d']

/-- Texts between brackets. -/
def dumpList (items : List (List Char)) : List Char :=
  '[' :: [',', ' '].intercalate items ++ [']']

/-- The dump of a number. -/
def dumpNumber (x : Float) : List Char := (Decimal.marked x).toList

/-- The dump of a reading. -/
def Reading.dump (v : Reading Float) : List Char :=
  dumpFields "Electrical"
    [("voltage", dumpNumber v.voltage), ("intensity", dumpNumber v.current),
      ("power", dumpNumber v.power)]

/-- The dump of an element, given that of its kind. -/
def dumpElement (kind : List Char) (label : String) (v : Reading Float) : List Char :=
  dumpFields "Node" [("kind", kind), ("id", Text.quote label.toList), ("values", v.dump)]

mutual

/-- The dump of an element. -/
def Element.dump : Element Float → List Char
  | .resistor l v r => dumpElement (dumpFields "Series" [("resistance", dumpNumber r)]) l v
  | .group l v bs => dumpElement (dumpFields "Parallel" [("branches", dumpList (dumpBranches bs))]) l v

/-- The dumps of the elements of a chain. -/
def Chain.dumps : Chain Float → List (List Char)
  | .last e => [e.dump]
  | .link e c => e.dump :: c.dumps

/-- The dumps of branches. -/
def dumpBranches : List (Chain Float) → List (List Char)
  | [] => []
  | b :: bs => dumpList b.dumps :: dumpBranches bs

end

/-- The dump of a chain. -/
def Chain.dump (c : Chain Float) : String := String.ofList (dumpList c.dumps)

end SeriesParallel
