import SeriesParallel.Proofs.Schematic.Columns
import SeriesParallel.Proofs.Schematic.Ports

/-!
# Schematic — filling the grid

A grid filled with placements shows each of them when no two are at one place,
and nothing else. A column of it is as wide as its widest cell.
-/

namespace SeriesParallel

namespace Grid

/-- Every row has all columns. -/
def Rectangular (g : Grid) : Prop := ∀ row ∈ g.rows, row.size = g.columns

/-- The grid after placements are stored in order. -/
def fill (g : Grid) (ps : List Placement) : Grid :=
  ps.foldl (fun g p => g.set p.row p.column p.cell) g

variable {g : Grid} {row column : Nat} {cell : Cell}

/-! ## Rows -/

theorem columns_ensureRow (g : Grid) (row : Nat) : (g.ensureRow row).columns = g.columns := by
  unfold ensureRow
  split <;> rfl

theorem size_ensureRow (g : Grid) (row : Nat) :
    (g.ensureRow row).rows.size = max g.rows.size (row + 1) := by
  unfold ensureRow
  split
  · omega
  · simp only [Array.size_append, Array.size_replicate]
    omega

theorem rectangular_ensureRow (hg : g.Rectangular) (row : Nat) : (g.ensureRow row).Rectangular := by
  intro cells hcells
  rw [columns_ensureRow]
  unfold ensureRow at hcells
  split at hcells
  · exact hg cells hcells
  · rcases Array.mem_append.mp hcells with hcells | hcells
    · exact hg cells hcells
    · rw [(Array.mem_replicate.mp hcells).2, Array.size_replicate]

/-- New rows are empty. -/
theorem cell_ensureRow (g : Grid) (row r c : Nat) : (g.ensureRow row).cell r c = g.cell r c := by
  unfold ensureRow
  split
  · rfl
  · by_cases hr : r < g.rows.size
    · simp only [cell, get?, Array.getElem?_append_left hr]
    · have hnone : g.rows[r]? = none := Array.getElem?_eq_none (by omega)
      simp only [cell, get?, Array.getElem?_append_right (Nat.le_of_not_lt hr), hnone,
        Array.getElem?_replicate]
      split
      · simp only [Option.bind_eq_bind, Option.bind_some, Array.getElem?_replicate]
        split <;> rfl
      · rfl

/-! ## One cell -/

theorem columns_set (g : Grid) (row column : Nat) (cell : Cell) :
    (g.set row column cell).columns = g.columns := columns_ensureRow g row

theorem size_set (g : Grid) (row column : Nat) (cell : Cell) :
    (g.set row column cell).rows.size = max g.rows.size (row + 1) := by
  rw [← size_ensureRow]
  exact Array.size_modify

theorem rectangular_set (hg : g.Rectangular) (row column : Nat) (cell : Cell) :
    (g.set row column cell).Rectangular := by
  have hg' := rectangular_ensureRow hg row
  intro cells hcells
  rw [columns_set, ← columns_ensureRow g row]
  obtain ⟨i, hi, rfl⟩ := Array.mem_iff_getElem.mp hcells
  have hi' : i < (g.ensureRow row).rows.size := by simpa [set] using hi
  simp only [set, Array.getElem_modify]
  split
  · rw [Array.size_setIfInBounds]
    exact hg' _ (Array.getElem_mem hi')
  · exact hg' _ (Array.getElem_mem hi')

/-- **Storing a cell** changes that cell and no other one. -/
theorem cell_set (hg : g.Rectangular) (hcolumn : column < g.columns) (r c : Nat) :
    (g.set row column cell).cell r c = if r = row ∧ c = column then cell else g.cell r c := by
  rw [← cell_ensureRow g row r c]
  have hrow : row < (g.ensureRow row).rows.size := by
    rw [size_ensureRow]
    omega
  have hsize : (g.ensureRow row).rows[row].size = g.columns := by
    rw [← columns_ensureRow g row]
    exact rectangular_ensureRow hg row _ (Array.getElem_mem hrow)
  by_cases hr : r = row
  · subst hr
    have hget : (g.ensureRow r).rows[r]? = some (g.ensureRow r).rows[r] :=
      Array.getElem?_eq_getElem hrow
    by_cases hc : c = column
    · subst hc
      simp [Grid.cell, get?, set, Array.getElem?_modify, hget, hsize, hcolumn]
    · simp [Grid.cell, get?, set, Array.getElem?_modify, hget, hc, Ne.symm hc]
  · simp [Grid.cell, get?, set, Array.getElem?_modify, hr, Ne.symm hr]

theorem get?_eq_some_cell (hg : g.Rectangular) (hrow : row < g.rows.size)
    (hcolumn : column < g.columns) : g.get? row column = some (g.cell row column) := by
  have hcell : column < g.rows[row].size := (hg _ (Array.getElem_mem hrow)).symm ▸ hcolumn
  simp [cell, get?, hrow, hcell]

theorem get?_eq_none (hrow : g.rows.size ≤ row) (column : Nat) : g.get? row column = none := by
  rw [get?, Array.getElem?_eq_none hrow]
  rfl

theorem get?_eq_some_of_cell (h : g.cell row column = cell) (hcell : cell ≠ .empty) :
    g.get? row column = some cell := by
  unfold Grid.cell at h
  cases hget : g.get? row column with
  | none =>
    rw [hget] at h
    exact absurd h.symm hcell
  | some cell' =>
    rw [hget] at h
    exact congrArg some h

/-! ## All placements -/

theorem fill_cons (g : Grid) (p : Placement) (ps : List Placement) :
    g.fill (p :: ps) = (g.set p.row p.column p.cell).fill ps := rfl

theorem columns_fill (g : Grid) (ps : List Placement) : (g.fill ps).columns = g.columns := by
  induction ps generalizing g with
  | nil => rfl
  | cons p ps ih => rw [fill_cons, ih, columns_set]

theorem rectangular_fill (hg : g.Rectangular) (ps : List Placement) :
    (g.fill ps).Rectangular := by
  induction ps generalizing g with
  | nil => exact hg
  | cons p ps ih =>
    rw [fill_cons]
    exact ih (rectangular_set hg _ _ _)

/-- Nothing changes where nothing is stored. -/
theorem cell_fill_of_forall_ne {ps : List Placement} {r c : Nat} (hg : g.Rectangular)
    (hcolumn : ∀ p ∈ ps, p.column < g.columns) (hne : ∀ p ∈ ps, ¬(r = p.row ∧ c = p.column)) :
    (g.fill ps).cell r c = g.cell r c := by
  induction ps generalizing g with
  | nil => rfl
  | cons p ps ih =>
    have tail : ∀ q ∈ ps, q.column < (g.set p.row p.column p.cell).columns := by
      intro q hq
      rw [columns_set]
      exact hcolumn q (List.mem_cons_of_mem _ hq)
    rw [fill_cons, ih (rectangular_set hg _ _ _) tail fun q hq => hne q (List.mem_cons_of_mem _ hq),
      cell_set hg (hcolumn p List.mem_cons_self), if_neg (hne p List.mem_cons_self)]

/-- **Every placement shows** if no other one is at its place. -/
theorem cell_fill_of_mem {ps : List Placement} {p : Placement} (hg : g.Rectangular)
    (hcolumn : ∀ q ∈ ps, q.column < g.columns) (hp : p ∈ ps)
    (distinct : ∀ q ∈ ps, p.row = q.row → p.column = q.column → p = q) :
    (g.fill ps).cell p.row p.column = p.cell := by
  induction ps generalizing g with
  | nil => exact absurd hp List.not_mem_nil
  | cons q ps ih =>
    have hset : (g.set q.row q.column q.cell).Rectangular := rectangular_set hg _ _ _
    have tail : ∀ x ∈ ps, x.column < (g.set q.row q.column q.cell).columns := by
      intro x hx
      rw [columns_set]
      exact hcolumn x (List.mem_cons_of_mem _ hx)
    rw [fill_cons]
    -- if `p` is stored again, the last time counts
    by_cases hmem : p ∈ ps
    · exact ih hset tail hmem fun x hx => distinct x (List.mem_cons_of_mem _ hx)
    · have hpq : p = q := by
        rcases List.mem_cons.mp hp with hpq | hp
        · exact hpq
        · exact absurd hp hmem
      subst hpq
      rw [cell_fill_of_forall_ne hset tail, cell_set hg (hcolumn p List.mem_cons_self),
        if_pos ⟨rfl, rfl⟩]
      intro x hx hplace
      have hpx := distinct x (List.mem_cons_of_mem _ hx) hplace.1 hplace.2
      exact hmem (hpx ▸ hx)

theorem size_fill_le {ps : List Placement} {n : Nat} (hg : g.rows.size ≤ n)
    (hrow : ∀ p ∈ ps, p.row < n) : (g.fill ps).rows.size ≤ n := by
  induction ps generalizing g with
  | nil => exact hg
  | cons p ps ih =>
    rw [fill_cons]
    apply ih
    · have := hrow p List.mem_cons_self
      rw [size_set]
      omega
    · exact fun q hq => hrow q (List.mem_cons_of_mem _ hq)

/-! ## The blank grid -/

theorem rectangular_blank (columns : Nat) : (blank columns).Rectangular := by
  intro row hrow
  simp [blank] at hrow

theorem cell_blank (columns r c : Nat) : (blank columns).cell r c = .empty := by
  simp [cell, get?, blank]

/-! ## The widths of columns -/

/-- **A column is as wide as its widest cell.** -/
theorem columnWidth_le_iff (g : Grid) (column w : Nat) :
    g.columnWidth column ≤ w ↔ ∀ row cell, g.get? row column = some cell → cell.width ≤ w := by
  have width_eq : g.columnWidth column =
      (g.rows.toList.map fun cells => (cells[column]?.map Cell.width).getD 0).foldl max 0 := by
    rw [columnWidth, ← Array.foldl_toList, List.foldl_map]
  rw [width_eq, foldl_max_le_iff]
  constructor
  · rintro ⟨-, h⟩ row cell hget
    obtain ⟨cells, hcells, hcell⟩ := Option.bind_eq_some_iff.mp hget
    have hmem : cells ∈ g.rows.toList := Array.mem_toList_iff.mpr (Array.mem_of_getElem? hcells)
    simpa [hcell] using h _ (List.mem_map_of_mem hmem)
  · intro h
    refine ⟨Nat.zero_le w, fun x hx => ?_⟩
    obtain ⟨cells, hcells, rfl⟩ := List.mem_map.mp hx
    obtain ⟨row, hrow⟩ := Array.getElem?_of_mem (Array.mem_toList_iff.mp hcells)
    cases hcell : cells[column]? with
    | none => exact Nat.zero_le w
    | some cell => exact h row cell (Option.bind_eq_some_iff.mpr ⟨cells, hrow, hcell⟩)

theorem width_le_columnWidth (g : Grid) (row column : Nat) :
    (g.cell row column).width ≤ g.columnWidth column := by
  unfold cell
  cases hget : g.get? row column with
  | none => exact Nat.zero_le _
  | some cell => exact (g.columnWidth_le_iff column _).mp (Nat.le_refl _) row cell hget

/-- There is a row for every port. -/
theorem HasPort.row_lt {p : Port} (h : g.HasPort p) : p.row < g.rows.size := by
  by_cases hrow : p.row < g.rows.size
  · exact hrow
  · simp [HasPort, cell, get?_eq_none (Nat.le_of_not_lt hrow), Cell.hasPort] at h

end Grid

/-! ## Layouts -/

/-- The column of the wires that lead to the terminals of the supply. -/
def Chain.leadColumn {R : Type} (c : Chain R) : Nat := Span.midpoint ⟨0, c.columns⟩

/-- What is placed for a whole circuit: the lead-in, the network, the lead-out. -/
theorem Chain.placements_layout {R : Type} (c : Chain R) :
    c.layout.placements = ⟨0, c.leadColumn, .wire⟩ :: (c.place ⟨0, c.columns⟩ 1).1 ++
      [⟨(c.place ⟨0, c.columns⟩ 1).2, c.leadColumn, .wire⟩] := rfl

/-- The grid of a network is as wide as the network. -/
theorem Chain.columns_grid_layout {R : Type} (c : Chain R) : c.layout.grid.columns = c.columns :=
  Grid.columns_fill _ _

end SeriesParallel
