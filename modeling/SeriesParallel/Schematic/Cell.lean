/-!
# Schematic — cells and how they are drawn

A schematic is a grid of cells. Every cell is drawn as three lines of the
width of its column. The vertical wire of a cell runs through its middle
character, `(width - 1) / 2`, which keeps stacked cells in line.
-/

namespace SeriesParallel

/-- Where a chain splits into branches or branches merge into a chain: whether
horizontal wires leave to the left and to the right, and whether a branch meets
the junction straight. -/
structure Junction where
  left : Bool
  right : Bool
  straight : Bool
  deriving Repr, DecidableEq

/-- How a branch meets a horizontal wire. -/
inductive Tap where
  | none
  | up
  | down
  deriving Repr, DecidableEq

/-- One cell of a schematic. -/
inductive Cell where
  /-- Nothing. -/
  | empty
  /-- A vertical wire. -/
  | wire
  /-- Where a chain splits into branches. -/
  | split (junction : Junction)
  /-- Where branches merge into a chain. -/
  | merge (junction : Junction)
  /-- A horizontal wire between the taps of branches. -/
  | rail (left right : Bool) (tap : Tap)
  /-- A resistor box with its label. -/
  | resistor (label : String)
  deriving Repr, DecidableEq

/-- Three lines of text, one above the other. -/
structure Strip where
  top : List Char
  middle : List Char
  bottom : List Char
  deriving Repr, DecidableEq

/-- The lines of a strip, from top to bottom. -/
def Strip.lines (s : Strip) : List (List Char) := [s.top, s.middle, s.bottom]

/-! ## Lines -/

/-- The index of the middle character of a line. -/
def middle (width : Nat) : Nat := (width - 1) / 2

/-- A line with nothing on it. -/
def blankLine (width : Nat) : List Char := List.replicate width ' '

/-- A line with a glyph in the middle and a wire, or nothing, on either side. -/
def railLine (left : Bool) (glyph : Char) (right : Bool) (width : Nat) : List Char :=
  let fill (wired : Bool) := if wired then '─' else ' '
  List.replicate (middle width) (fill left) ++
    glyph :: List.replicate (width - (middle width + 1)) (fill right)

/-- A line with a vertical wire in the middle. -/
def wireLine (width : Nat) : List Char := railLine false '│' false width

/-- A line with a vertical wire in the middle, or nothing. -/
def wireLineIf (wired : Bool) (width : Nat) : List Char :=
  if wired then wireLine width else blankLine width

/-! ## Glyphs -/

/-- The glyph of a split. -/
def splitGlyph : Junction → Char
  | ⟨true, true, true⟩ => '┼'
  | ⟨true, true, false⟩ => '┴'
  | ⟨true, false, true⟩ => '┤'
  | ⟨true, false, false⟩ => '┘'
  | ⟨false, true, true⟩ => '├'
  | ⟨false, true, false⟩ => '└'
  | ⟨false, false, true⟩ => '│'
  | ⟨false, false, false⟩ => '?'

/-- The glyph of a merge. -/
def mergeGlyph : Junction → Char
  | ⟨true, true, true⟩ => '┼'
  | ⟨true, true, false⟩ => '┬'
  | ⟨true, false, true⟩ => '┤'
  | ⟨true, false, false⟩ => '┐'
  | ⟨false, true, true⟩ => '├'
  | ⟨false, true, false⟩ => '┌'
  | ⟨false, false, true⟩ => '│'
  | ⟨false, false, false⟩ => '?'

/-- The glyph of a horizontal wire. -/
def railGlyph : (left right : Bool) → Tap → Char
  | true, true, .up => '┴'
  | true, true, .down => '┬'
  | true, false, .up => '┘'
  | true, false, .down => '┐'
  | false, true, .up => '└'
  | false, true, .down => '┌'
  | false, false, .up => '│'
  | false, false, .down => '│'
  | false, false, .none => '?'
  | _, _, .none => '─'

/-! ## Cells -/

namespace Cell

/-- The least width a cell can be drawn in. -/
def width : Cell → Nat
  | empty => 0
  | resistor label => 2 + label.length
  | _ => 1

/-- The box of a resistor. It widens to the right of its label. -/
def box (label : String) (width : Nat) : Strip :=
  let left := List.replicate (SeriesParallel.middle width - 1) '═'
  let right := List.replicate (width - (SeriesParallel.middle width + 2)) '═'
  let name := label.toList ++ List.replicate (width - 2 - label.length) ' '
  { top := '╔' :: left ++ '╧' :: right ++ ['╗']
    middle := '║' :: name ++ ['║']
    bottom := '╚' :: left ++ '╤' :: right ++ ['╝'] }

/-- The drawing of a cell. At the cell's own width and above, each line has
exactly `width` characters. -/
def draw (width : Nat) : Cell → Strip
  | empty => ⟨blankLine width, blankLine width, blankLine width⟩
  | wire => ⟨wireLine width, wireLine width, wireLine width⟩
  | split j =>
    ⟨wireLine width, railLine j.left (splitGlyph j) j.right width, wireLineIf j.straight width⟩
  | merge j =>
    ⟨wireLineIf j.straight width, railLine j.left (mergeGlyph j) j.right width, wireLine width⟩
  | rail left right tap =>
    ⟨wireLineIf (tap = .up) width, railLine left (railGlyph left right tap) right width,
      wireLineIf (tap = .down) width⟩
  | resistor label => box label width

/-- A short code for a cell, for looking at layouts. -/
def code : Cell → String
  | empty => ""
  | wire => "B"
  | split j => if j.straight then "Sv" else "S"
  | merge j => if j.straight then "M^" else "M"
  | rail _ _ .none => "H"
  | rail _ _ .up => "H^"
  | rail _ _ .down => "Hv"
  | resistor label => label

end Cell

end SeriesParallel
