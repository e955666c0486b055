import SeriesParallel.Network.Basic
import SeriesParallel.Schematic.Grid

/-!
# Schematic — laying out a network

A network is laid out from top to bottom. A resistor takes one row. A group
takes a row where the chain splits, the rows of its tallest branch, and a row
where the branches merge. Every branch has its own span of columns, so that
branches share rows without touching.

A layout is a list of **placements**, cells with the places they are put at.
Storing them in order gives the grid.
-/

namespace SeriesParallel

variable {R : Type}

/-! ## Columns -/

mutual

/-- The number of columns an element needs: one for a resistor, those of all
branches for a group. -/
def Element.columns : Element R → Nat
  | .resistor .. => 1
  | .group _ _ bs => branchColumns bs

/-- The number of columns a chain needs: those of its widest element, and at
least one. -/
def Chain.columns : Chain R → Nat
  | .last e => max 1 e.columns
  | .link e c => max e.columns c.columns

/-- The number of columns that branches need side by side. -/
def branchColumns : List (Chain R) → Nat
  | [] => 0
  | b :: bs => b.columns + branchColumns bs

end

/-- Consecutive columns: `width` of them from `start` on. -/
structure Span where
  start : Nat
  width : Nat
  deriving Repr, DecidableEq

/-- The middle column of a span, the left one of two. -/
def Span.midpoint (s : Span) : Nat := s.start + (s.width - 1) / 2

/-- Spare columns spread over gaps. Every gap gets an equal share, and the
earliest gaps get what is left over. -/
def distributeGaps (slack gaps : Nat) : List Nat :=
  (List.range gaps).map fun i => slack / gaps + if i < slack % gaps then 1 else 0

/-- Spans of the given widths from a column on, with gaps between them. -/
def spansFrom (start : Nat) : (widths gaps : List Nat) → List Span
  | [], _ => []
  | w :: ws, gaps => ⟨start, w⟩ :: spansFrom (start + w + gaps.headD 0) ws gaps.tail

/-- The spans of the branches of a group within the span of the group. -/
def branchSpans (s : Span) (widths : List Nat) : List Span :=
  spansFrom s.start widths (distributeGaps (s.width - widths.foldr (· + ·) 0) (widths.length - 1))

/-! ## Placements -/

/-- A cell and the place it is put at. -/
structure Placement where
  row : Nat
  column : Nat
  cell : Cell
  deriving Repr, DecidableEq

/-- The two kinds of rows that connect a group with its branches. -/
inductive Connector where
  | split
  | merge
  deriving Repr, DecidableEq

/-- How the wire of a connector row meets a branch. -/
def Connector.tap : Connector → Tap
  | split => .down
  | merge => .up

/-- The junction cell of a connector row. -/
def Connector.cell : Connector → Junction → Cell
  | split => .split
  | merge => .merge

/-- The wire from the first to the last branch of a group, with a tap at each
branch and the junction with the chain at `centre`. -/
def connectorRow (kind : Connector) (row centre : Nat) (mids : List Nat) : List Placement :=
  match mids.head?, mids.getLast? with
  | some first, some last =>
    let columns := (List.range' first (last + 1 - first)).filter (· != centre)
    let rail (column : Nat) : Placement :=
      ⟨row, column, .rail (column != first) (column != last)
        (if mids.contains column then kind.tap else .none)⟩
    columns.map rail ++
      [⟨row, centre, kind.cell ⟨first < centre, centre < last, mids.contains centre⟩⟩]
  | _, _ => []

/-- Vertical wires in a column, from a row down to another one, that excluded. -/
def wires (column fromRow toRow : Nat) : List Placement :=
  (List.range' fromRow (toRow - fromRow)).map fun row => ⟨row, column, .wire⟩

/-- Branches whose own rows have been placed from one common row on, each with
the row after it, extended by wires down to the row after the tallest one. -/
def extensions (bottom : Nat) (mids rows : List Nat) : List Placement :=
  (mids.zip rows).flatMap fun (mid, row) => wires mid row bottom

mutual

/-- Lays out an element in a span from a row on; answers with the placements
and the row after the element. -/
def Element.place (span : Span) (row : Nat) : Element R → List Placement × Nat
  | .resistor l _ _ => ([⟨row, span.midpoint, .resistor l⟩], row + 1)
  | .group _ _ bs =>
    let spans := branchSpans span (bs.map Chain.columns)
    let mids := spans.map Span.midpoint
    let top := row + 1
    let (inside, rows) := placeBranches top bs spans
    let bottom := rows.foldl max top
    (connectorRow .split row span.midpoint mids ++ inside ++ extensions bottom mids rows
      ++ connectorRow .merge bottom span.midpoint mids, bottom + 1)

/-- Lays out a chain, one element below the other. -/
def Chain.place (span : Span) (row : Nat) : Chain R → List Placement × Nat
  | .last e => e.place span row
  | .link e c =>
    let (above, next) := e.place span row
    let (below, next) := c.place span next
    (above ++ below, next)

/-- Lays out branches in their spans, all from one row on; answers with the
placements and the row after each branch. -/
def placeBranches (row : Nat) : List (Chain R) → List Span → List Placement × List Nat
  | b :: bs, span :: spans =>
    let (first, next) := b.place span row
    let (others, nexts) := placeBranches row bs spans
    (first ++ others, next :: nexts)
  | _, _ => ([], [])

end

/-! ## Layouts -/

/-- Placements in a fixed number of columns, and the row that is placed next. -/
structure Layout where
  columns : Nat
  placements : List Placement
  row : Nat
  deriving Repr, DecidableEq

namespace Layout

/-- A layout with nothing placed. -/
def start (columns : Nat) : Layout := ⟨columns, [], 0⟩

/-- Puts a single cell on the next row. -/
def push (l : Layout) (column : Nat) (cell : Cell) : Layout :=
  { l with placements := l.placements ++ [⟨l.row, column, cell⟩], row := l.row + 1 }

/-- Lays out a chain in a span from the next row on. -/
def place (l : Layout) (c : Chain R) (span : Span) : Layout :=
  let (placements, next) := c.place span l.row
  { l with placements := l.placements ++ placements, row := next }

/-- The grid of a layout: its placements stored in order. -/
def grid (l : Layout) : Grid :=
  l.placements.foldl (fun g p => g.set p.row p.column p.cell) (.blank l.columns)

end Layout

/-- The layout of a whole circuit: the network between the wires that lead to
the two terminals of the supply. -/
def Chain.layout (c : Chain R) : Layout :=
  let span : Span := ⟨0, c.columns⟩
  (((Layout.start c.columns).push span.midpoint .wire).place c span).push span.midpoint .wire

end SeriesParallel
