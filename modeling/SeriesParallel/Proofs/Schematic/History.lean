import Mathlib.Data.List.Induction
import Mathlib.Order.Bounds.Basic
import SeriesParallel.Proofs.Schematic.Filling

/-!
# Schematic — the history of a grid

A grid is made by edits in any order: rows are added, and cells are stored, also
above earlier ones and over them. Whatever the order, the grid **records** its
history. There are rows down to the last one that an edit names, a place shows
the cell that was stored there last, and a column is as wide as its widest cell.
No other grid records the same history.
-/

namespace SeriesParallel

/-! ## Edits -/

/-- A change of a grid with a number of columns. -/
inductive Edit (columns : Nat) where
  /-- Rows are added until one exists. -/
  | grow (row : Nat)
  /-- A cell is stored at a row and a column. -/
  | store (row : Nat) (column : Fin columns) (cell : Cell)
  deriving Repr, DecidableEq

variable {columns : Nat}

namespace Edit

/-- The row that an edit names. -/
def row : Edit columns → Nat
  | grow row => row
  | store row _ _ => row

/-- The cell that an edit stores at a place, if it stores one there. -/
def cellAt? (row : Nat) (column : Fin columns) : Edit columns → Option Cell
  | grow _ => none
  | store r c cell => if row = r ∧ column = c then some cell else none

/-- A grid after an edit. -/
def apply (g : Grid) : Edit columns → Grid
  | grow row => g.ensureRow row
  | store row column cell => g.set row column cell

/-- The cell that edits store last at a place, if they store one there. -/
def lastCell? (history : List (Edit columns)) (row : Nat) (column : Fin columns) : Option Cell :=
  history.reverse.findSome? (cellAt? row column)

end Edit

/-- The grid that edits make, the first one in the list first. -/
def Grid.ofEdits (history : List (Edit columns)) : Grid :=
  history.foldl Edit.apply (.blank columns)

/-- A grid shows what edits have made of it. -/
structure Grid.Records (g : Grid) (history : List (Edit columns)) : Prop where
  columns_eq : g.columns = columns
  rectangular : ∀ row ∈ g.rows, row.size = columns
  /-- Without edits there are no rows. -/
  size_of_nil : history = [] → g.rows.size = 0
  /-- Otherwise the last row is the greatest one that an edit names. -/
  size_of_ne_nil : history ≠ [] →
    ∃ last, IsGreatest {row | ∃ edit ∈ history, edit.row = row} last ∧ g.rows.size = last + 1
  /-- A stored cell is there until another one is stored at its place. -/
  stored : ∀ row column cell, Edit.lastCell? history row column = some cell →
    g.get? row column = some cell
  /-- The other places of the rows are empty. -/
  vacant : ∀ row column, Edit.lastCell? history row column = none → row < g.rows.size →
    g.get? row (column : Fin columns) = some .empty
  beyond : ∀ row column, g.rows.size ≤ row → g.get? row column = none
  /-- A column has the least width that fits all its cells. -/
  width : ∀ column < columns, ∃ w, g.columnWidths[column]? = some w ∧
    IsLeast {w | ∀ row cell, g.get? row column = some cell → cell.width ≤ w} w

variable {g : Grid} {history : List (Edit columns)}

/-! ## One edit -/

namespace Edit

theorem columns_apply (g : Grid) (edit : Edit columns) : (edit.apply g).columns = g.columns := by
  cases edit with
  | grow row => exact Grid.columns_ensureRow g row
  | store row column cell => exact Grid.columns_set g row column cell

theorem rectangular_apply (hg : g.Rectangular) (edit : Edit columns) :
    (edit.apply g).Rectangular := by
  cases edit with
  | grow row => exact Grid.rectangular_ensureRow hg row
  | store row column cell => exact Grid.rectangular_set hg row column cell

theorem size_apply (g : Grid) (edit : Edit columns) :
    (edit.apply g).rows.size = max g.rows.size (edit.row + 1) := by
  cases edit with
  | grow row => exact Grid.size_ensureRow g row
  | store row column cell => exact Grid.size_set g row column cell

/-- **An edit** changes the cell that it stores, if it stores one, and no other one. -/
theorem cell_apply (hg : g.Rectangular) (hcolumns : g.columns = columns) (edit : Edit columns)
    (row : Nat) (column : Fin columns) :
    (edit.apply g).cell row column = (edit.cellAt? row column).getD (g.cell row column) := by
  cases edit with
  | grow r => exact Grid.cell_ensureRow g r row column
  | store r c cell =>
    rw [apply, Grid.cell_set hg (hcolumns.symm ▸ c.isLt), cellAt?]
    by_cases h : row = r ∧ column = c
    · rw [if_pos h, if_pos ⟨h.1, congrArg Fin.val h.2⟩, Option.getD_some]
    · rw [if_neg h, if_neg fun h' => h ⟨h'.1, Fin.ext h'.2⟩, Option.getD_none]

theorem row_eq_of_cellAt? {edit : Edit columns} {row : Nat} {column : Fin columns} {cell : Cell}
    (h : edit.cellAt? row column = some cell) : edit.row = row := by
  cases edit with
  | grow r => cases h
  | store r c stored =>
    rw [cellAt?] at h
    split at h
    · rename_i place
      exact place.1.symm
    · cases h

theorem lastCell?_concat (history : List (Edit columns)) (edit : Edit columns) (row : Nat)
    (column : Fin columns) : lastCell? (history ++ [edit]) row column =
      (edit.cellAt? row column).or (lastCell? history row column) := by
  rw [lastCell?, List.reverse_append, List.findSome?_append, List.reverse_singleton,
    List.findSome?_singleton, lastCell?]

theorem exists_mem_of_lastCell? {row : Nat} {column : Fin columns} {cell : Cell}
    (h : lastCell? history row column = some cell) : ∃ edit ∈ history, edit.row = row := by
  obtain ⟨edit, hedit, hcell⟩ := List.exists_of_findSome?_eq_some h
  exact ⟨edit, List.mem_reverse.mp hedit, row_eq_of_cellAt? hcell⟩

end Edit

/-! ## All edits -/

namespace Grid

theorem ofEdits_concat (history : List (Edit columns)) (edit : Edit columns) :
    ofEdits (history ++ [edit]) = edit.apply (ofEdits history) := List.foldl_append

theorem columns_ofEdits (history : List (Edit columns)) : (ofEdits history).columns = columns := by
  induction history using List.reverseRecOn with
  | nil => rfl
  | append_singleton history edit ih => rw [ofEdits_concat, Edit.columns_apply, ih]

theorem rectangular_ofEdits (history : List (Edit columns)) : (ofEdits history).Rectangular := by
  induction history using List.reverseRecOn with
  | nil => exact rectangular_blank columns
  | append_singleton history edit ih =>
    rw [ofEdits_concat]
    exact Edit.rectangular_apply ih edit

/-- There are no more rows than the edits need. -/
theorem size_ofEdits_le_iff (history : List (Edit columns)) (n : Nat) :
    (ofEdits history).rows.size ≤ n ↔ ∀ edit ∈ history, edit.row < n := by
  induction history using List.reverseRecOn with
  | nil => simp [ofEdits, blank]
  | append_singleton history edit ih =>
    rw [ofEdits_concat, Edit.size_apply, Nat.max_le, ih, List.forall_mem_append,
      List.forall_mem_singleton, Nat.succ_le_iff]

theorem row_lt_size_ofEdits {edit : Edit columns} (h : edit ∈ history) :
    edit.row < (ofEdits history).rows.size :=
  (size_ofEdits_le_iff history _).mp (Nat.le_refl _) edit h

/-- **A place shows what was stored there last.** -/
theorem cell_ofEdits (history : List (Edit columns)) (row : Nat) (column : Fin columns) :
    (ofEdits history).cell row column = (Edit.lastCell? history row column).getD .empty := by
  induction history using List.reverseRecOn with
  | nil => exact cell_blank columns row column
  | append_singleton history edit ih =>
    rw [ofEdits_concat, Edit.lastCell?_concat,
      Edit.cell_apply (rectangular_ofEdits history) (columns_ofEdits history), ih]
    cases edit.cellAt? row column <;> rfl

theorem get?_ofEdits {row : Nat} {column : Fin columns} (hrow : row < (ofEdits history).rows.size) :
    (ofEdits history).get? row column =
      some ((Edit.lastCell? history row column).getD .empty) := by
  have hcolumn : (column : Nat) < (ofEdits history).columns :=
    (columns_ofEdits history).symm ▸ column.isLt
  rw [get?_eq_some_cell (rectangular_ofEdits history) hrow hcolumn, cell_ofEdits]

/-- The last row is one that an edit names. -/
theorem exists_last_row (h : history ≠ []) :
    ∃ last, IsGreatest {row | ∃ edit ∈ history, edit.row = row} last ∧
      (ofEdits history).rows.size = last + 1 := by
  obtain ⟨first, hfirst⟩ := List.exists_mem_of_ne_nil history h
  have size_pos : 0 < (ofEdits history).rows.size :=
    Nat.zero_lt_of_lt (row_lt_size_ofEdits hfirst)
  obtain ⟨last, size_eq⟩ := Nat.exists_eq_add_one.mpr size_pos
  have le_last : ∀ edit ∈ history, edit.row ≤ last := by
    intro edit hedit
    have := row_lt_size_ofEdits hedit
    omega
  refine ⟨last, ⟨?_, ?_⟩, size_eq⟩
  · -- if no edit named the last row, one row fewer would do
    by_contra unnamed
    have size_le : (ofEdits history).rows.size ≤ last := by
      refine (size_ofEdits_le_iff history last).mpr fun edit hedit => ?_
      exact Nat.lt_of_le_of_ne (le_last edit hedit) fun hrow => unnamed ⟨edit, hedit, hrow⟩
    omega
  · rintro row ⟨edit, hedit, rfl⟩
    exact le_last edit hedit

theorem records_ofEdits (history : List (Edit columns)) : (ofEdits history).Records history where
  columns_eq := columns_ofEdits history
  rectangular row hrow := (rectangular_ofEdits history row hrow).trans (columns_ofEdits history)
  size_of_nil h := by
    subst h
    rfl
  size_of_ne_nil := exists_last_row
  stored row column cell h := by
    obtain ⟨edit, hedit, rfl⟩ := Edit.exists_mem_of_lastCell? h
    rw [get?_ofEdits (row_lt_size_ofEdits hedit), h, Option.getD_some]
  vacant row column h hrow := by rw [get?_ofEdits hrow, h, Option.getD_none]
  beyond row column hrow := get?_eq_none hrow column
  width column hcolumn := by
    refine ⟨(ofEdits history).columnWidth column, ?_, ?_, ?_⟩
    · simp [columnWidths, columns_ofEdits, hcolumn]
    · exact (columnWidth_le_iff _ column _).mp (Nat.le_refl _)
    · exact fun w hw => (columnWidth_le_iff _ column w).mpr hw

/-! ## One grid -/

/-- A grid is determined by its size and the cells of its places. -/
theorem eq_of_get?_eq {g g' : Grid} (hg : g.Rectangular) (hg' : g'.Rectangular)
    (columns_eq : g.columns = g'.columns) (size_eq : g.rows.size = g'.rows.size)
    (get_eq : ∀ row, ∀ column < g.columns, g.get? row column = g'.get? row column) : g = g' := by
  have rows_eq : g.rows = g'.rows := by
    refine Array.ext size_eq fun row hrow hrow' => ?_
    have cells_size : g.rows[row].size = g.columns := hg _ (Array.getElem_mem hrow)
    have cells_size' : g'.rows[row].size = g'.columns := hg' _ (Array.getElem_mem hrow')
    refine Array.ext (by omega) fun column hcolumn hcolumn' => ?_
    simpa [get?, hrow, hrow', hcolumn, hcolumn'] using get_eq row column (cells_size ▸ hcolumn)
  cases g
  cases g'
  cases columns_eq
  cases rows_eq
  rfl

namespace Records

variable {g' : Grid}

theorem size_eq (h : g.Records history) (h' : g'.Records history) :
    g.rows.size = g'.rows.size := by
  by_cases hnil : history = []
  · rw [h.size_of_nil hnil, h'.size_of_nil hnil]
  · obtain ⟨last, greatest, size_eq⟩ := h.size_of_ne_nil hnil
    obtain ⟨last', greatest', size_eq'⟩ := h'.size_of_ne_nil hnil
    rw [size_eq, size_eq', greatest.unique greatest']

theorem get?_eq (h : g.Records history) (h' : g'.Records history) (row : Nat)
    (column : Fin columns) : g.get? row column = g'.get? row column := by
  cases hlast : Edit.lastCell? history row column with
  | some cell => rw [h.stored row column cell hlast, h'.stored row column cell hlast]
  | none =>
    rcases Nat.lt_or_ge row g.rows.size with hrow | hrow
    · rw [h.vacant row column hlast hrow, h'.vacant row column hlast (h.size_eq h' ▸ hrow)]
    · rw [h.beyond row column hrow, h'.beyond row column (h.size_eq h' ▸ hrow)]

theorem unique (h : g.Records history) (h' : g'.Records history) : g = g' :=
  eq_of_get?_eq (fun row hrow => (h.rectangular row hrow).trans h.columns_eq.symm)
    (fun row hrow => (h'.rectangular row hrow).trans h'.columns_eq.symm)
    (h.columns_eq.trans h'.columns_eq.symm) (h.size_eq h')
    fun row column hcolumn => h.get?_eq h' row ⟨column, h.columns_eq ▸ hcolumn⟩

end Records

/-- **A grid keeps what is stored in it**: edits in any order make the grid that
records them, and no other grid does. -/
theorem records_iff_eq_ofEdits (g : Grid) (history : List (Edit columns)) :
    g.Records history ↔ g = ofEdits history := by
  constructor
  · intro h
    exact h.unique (records_ofEdits history)
  · rintro rfl
    exact records_ofEdits history

example : ofEdits ([.store 2 1 .wire, .store 0 0 (.resistor "A"), .grow 1,
    .store 2 1 (.resistor "B")] : List (Edit 2)) =
    ⟨2, #[#[.resistor "A", .empty], #[.empty, .empty], #[.empty, .resistor "B"]]⟩ := by decide

end Grid

end SeriesParallel
