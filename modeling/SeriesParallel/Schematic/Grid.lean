import SeriesParallel.Schematic.Cell

/-!
# Schematic — the grid of cells

A grid has a fixed number of columns. Rows are added at the bottom when a cell
is stored on a row that does not exist yet.
-/

namespace SeriesParallel

/-- A rectangular grid of cells. -/
structure Grid where
  columns : Nat
  rows : Array (Array Cell)
  deriving Repr, DecidableEq

namespace Grid

/-- A grid without rows. -/
def blank (columns : Nat) : Grid := ⟨columns, #[]⟩

/-- The cell at a row and a column, if both exist. -/
def get? (g : Grid) (row column : Nat) : Option Cell :=
  g.rows[row]? >>= (·[column]?)

/-- The grid with rows added until `row` exists. -/
def ensureRow (g : Grid) (row : Nat) : Grid :=
  if row < g.rows.size then g
  else
    let missing := row + 1 - g.rows.size
    { g with rows := g.rows ++ Array.replicate missing (Array.replicate g.columns .empty) }

/-- The grid with a cell stored at a row and a column. -/
def set (g : Grid) (row column : Nat) (cell : Cell) : Grid :=
  let g := g.ensureRow row
  { g with rows := g.rows.modify row (·.setIfInBounds column cell) }

/-- The width of one column: that of its widest cell. -/
def columnWidth (g : Grid) (column : Nat) : Nat :=
  g.rows.foldl (fun w row => max w ((row[column]?.map Cell.width).getD 0)) 0

/-- The widths of all columns. -/
def columnWidths (g : Grid) : List Nat := (List.range g.columns).map g.columnWidth

/-! ## Text -/

/-- The three lines of a row in columns of the given widths. -/
def drawRow (widths : List Nat) (row : List Cell) : List (List Char) :=
  let strips := (row.zip widths).map fun (cell, width) => cell.draw width
  [strips.flatMap Strip.top, strips.flatMap Strip.middle, strips.flatMap Strip.bottom]

/-- The lines of the drawing, three for each row. -/
def lines (g : Grid) : List (List Char) :=
  let widths := g.columnWidths
  g.rows.toList.flatMap fun row => drawRow widths row.toList

/-- The drawing, every line ended by a line feed. -/
def render (g : Grid) : String := String.ofList (g.lines.flatMap (· ++ ['\n']))

/-- A text padded with blanks to a width. -/
def padTo (width : Nat) (cs : List Char) : List Char :=
  cs ++ List.replicate (width - cs.length) ' '

/-- One row of the table of cell codes. -/
def codeRow (row : List Cell) : List Char :=
  '│' :: row.flatMap fun cell => padTo 4 cell.code.toList ++ ['│']

/-- A boxed table of the codes of all cells. -/
def table (g : Grid) : String :=
  let rule := List.replicate (g.columns * 5 - 1) '─'
  let head := '┌' :: rule ++ ['┐', '\n']
  let below := '├' :: rule ++ ['┤', '\n']
  String.ofList (head ++ g.rows.toList.flatMap fun row => codeRow row.toList ++ '\n' :: below)

end Grid

end SeriesParallel
