import Mathlib.Logic.Relation
import SeriesParallel.Schematic.Grid

/-!
# Schematic — ports and paths of wire

The wires of a cell end at **ports** on its four sides. Ports of neighbouring
cells face each other across the border of the cells. A path of wire goes from
port to port: over a border, or through a cell that is not a resistor.
-/

namespace SeriesParallel

/-! ## Ports -/

/-- A side of a cell. -/
inductive Side where
  | up
  | down
  | left
  | right
  deriving Repr, DecidableEq

namespace Cell

/-- Whether a wire of a cell ends at a side of it. -/
def hasPort : Cell → Side → Bool
  | empty, _ => false
  | wire, side => side = .up ∨ side = .down
  | resistor _, side => side = .up ∨ side = .down
  | split _, .up => true
  | split j, .down => j.straight
  | split j, .left => j.left
  | split j, .right => j.right
  | merge j, .up => j.straight
  | merge _, .down => true
  | merge j, .left => j.left
  | merge j, .right => j.right
  | rail _ _ tap, .up => tap = .up
  | rail _ _ tap, .down => tap = .down
  | rail left _ _, .left => left
  | rail _ right _, .right => right

/-- Whether a cell is a resistor box. -/
def isResistor : Cell → Bool
  | resistor _ => true
  | _ => false

end Cell

/-- A side of the cell at a row and a column. -/
structure Port where
  row : Nat
  column : Nat
  side : Side
  deriving Repr, DecidableEq

namespace Port

/-- Two ports are the two sides of one border between cells. -/
def Faces (p q : Port) : Prop :=
  match p.side, q.side with
  | .down, .up => q.row = p.row + 1 ∧ q.column = p.column
  | .up, .down => p.row = q.row + 1 ∧ p.column = q.column
  | .right, .left => q.column = p.column + 1 ∧ q.row = p.row
  | .left, .right => p.column = q.column + 1 ∧ p.row = q.row
  | _, _ => False

variable {p q q' : Port}

theorem Faces.symm (h : p.Faces q) : q.Faces p := by
  obtain ⟨r, c, side⟩ := p
  obtain ⟨r', c', side'⟩ := q
  cases side <;> cases side' <;> exact h

/-- A port faces one port at most. -/
theorem Faces.unique (h : p.Faces q) (h' : p.Faces q') : q = q' := by
  obtain ⟨r, c, side⟩ := p
  obtain ⟨r₁, c₁, side₁⟩ := q
  obtain ⟨r₂, c₂, side₂⟩ := q'
  cases side <;> cases side₁ <;> cases side₂ <;> simp_all [Faces]

/-- The port below a port at the bottom of a cell. -/
theorem faces_below (row column : Nat) : Faces ⟨row, column, .down⟩ ⟨row + 1, column, .up⟩ :=
  ⟨rfl, rfl⟩

/-- The port on the right of a port at the right of a cell. -/
theorem faces_right (row column : Nat) : Faces ⟨row, column, .right⟩ ⟨row, column + 1, .left⟩ :=
  ⟨rfl, rfl⟩

/-! ### The edges of a grid -/

theorem not_faces_up_zero {column : Nat} : ¬Faces ⟨0, column, .up⟩ q := by
  intro h
  obtain ⟨row, column', side⟩ := q
  cases side <;> simp only [Faces] at h
  omega

theorem not_faces_left_zero {row : Nat} : ¬Faces ⟨row, 0, .left⟩ q := by
  intro h
  obtain ⟨row', column, side⟩ := q
  cases side <;> simp only [Faces] at h
  omega

/-- What the bottom of a cell faces is on the next row. -/
theorem Faces.row_eq_succ {row column : Nat} (h : Faces ⟨row, column, .down⟩ q) :
    q.row = row + 1 := congrArg Port.row (h.unique (faces_below row column))

end Port

/-! ## Paths of wire in a grid -/

namespace Grid

/-- The cell at a row and a column, and nothing outside of the grid. -/
def cell (g : Grid) (row column : Nat) : Cell := (g.get? row column).getD .empty

/-- A wire of the grid ends at a port. -/
def HasPort (g : Grid) (p : Port) : Prop := (g.cell p.row p.column).hasPort p.side

/-- One step of a path: over a border between two cells, or through a cell that
is not a resistor. -/
inductive Linked (g : Grid) : Port → Port → Prop
  | border {p q : Port} : g.HasPort p → g.HasPort q → p.Faces q → Linked g p q
  | through {row column : Nat} {side side' : Side} :
    g.HasPort ⟨row, column, side⟩ → g.HasPort ⟨row, column, side'⟩ →
    (g.cell row column).isResistor = false →
    Linked g ⟨row, column, side⟩ ⟨row, column, side'⟩

/-- Two ports are joined by a path that passes through no resistor. -/
def Joined (g : Grid) : Port → Port → Prop := Relation.ReflTransGen g.Linked

variable {g : Grid} {p q r : Port}

theorem Linked.symm (h : g.Linked p q) : g.Linked q p := by
  cases h with
  | border hp hq faces => exact .border hq hp faces.symm
  | through hp hq cell => exact .through hq hp cell

theorem Linked.joined (h : g.Linked p q) : g.Joined p q := .single h

theorem Joined.refl (g : Grid) (p : Port) : g.Joined p p := Relation.ReflTransGen.refl

theorem Joined.trans (h : g.Joined p q) (h' : g.Joined q r) : g.Joined p r :=
  Relation.ReflTransGen.trans h h'

theorem Joined.symm (h : g.Joined p q) : g.Joined q p := by
  induction h with
  | refl => exact .refl g p
  | tail _ step ih => exact .head step.symm ih

end Grid

end SeriesParallel
