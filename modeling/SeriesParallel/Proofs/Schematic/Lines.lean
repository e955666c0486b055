import SeriesParallel.Proofs.Schematic.Columns
import SeriesParallel.Proofs.Schematic.Filling
import SeriesParallel.Proofs.Schematic.Glyphs

/-!
# Schematic — the text of a grid

A grid is **seamless** when the ports of neighbouring cells match, and no ports
are at its outside but those of the two wires in one column. The text of a
seamless grid has no seams either: the rows of cells are strips, and the
strips are one below the other.
-/

namespace SeriesParallel

/-! ## Rows of cells -/

/-- Cells side by side, each in its width. -/
def stripOf (cells : List (Cell × Nat)) : Strip :=
  let strips := cells.map fun (cell, width) => cell.draw width
  ⟨strips.flatMap Strip.top, strips.flatMap Strip.middle, strips.flatMap Strip.bottom⟩

/-- The strokes of cells side by side that reach a vertical side of the cells. -/
def pulses (side : Side) (cells : List (Cell × Nat)) : List Bool :=
  cells.flatMap fun (cell, width) => pulse (cell.hasPort side) width

/-- **A row of cells shows their ports.** -/
theorem draws_stripOf {cells : List (Cell × Nat)} {left right : Bool}
    (h : Threads (·.1.hasPort .left) (·.1.hasPort .right) left cells right)
    (fits : ∀ x ∈ cells, x.1.Drawable ∧ x.1.width ≤ x.2) :
    (stripOf cells).Draws left right (pulses .up cells) (pulses .down cells) := by
  induction cells generalizing left with
  | nil =>
    cases h
    exact .empty _
  | cons x cells ih =>
    obtain ⟨rfl, h⟩ := h
    obtain ⟨drawable, hwidth⟩ := fits x List.mem_cons_self
    exact (Cell.draws_draw drawable hwidth).beside
      (ih h fun y hy => fits y (List.mem_cons_of_mem _ hy))

namespace Grid

variable {g : Grid} {lead : Nat}

/-- The cells of a row with the widths of their columns. -/
def rowCells (g : Grid) (row : Nat) : List (Cell × Nat) :=
  (List.range g.columns).map fun column => (g.cell row column, g.columnWidth column)

theorem lines_stripOf_rowCells (g : Grid) (row : Nat) : (stripOf (g.rowCells row)).lines =
    drawRow g.columnWidths ((List.range g.columns).map (g.cell row)) := by
  rw [drawRow, columnWidths, List.zip_map']
  rfl

/-- The rows of a rectangular grid are those of its cells. -/
theorem map_toList_rows (hg : g.Rectangular) : g.rows.toList.map Array.toList =
    (List.range g.rows.size).map fun row => (List.range g.columns).map (g.cell row) := by
  apply List.ext_getElem
  · simp
  · intro row hrow _
    have hrow : row < g.rows.size := by simpa using hrow
    have size_eq : g.rows[row].size = g.columns := hg _ (Array.getElem_mem hrow)
    apply List.ext_getElem
    · simp [size_eq]
    · intro column hcolumn _
      have hcolumn : column < g.rows[row].size := by simpa using hcolumn
      simp [cell, get?, hrow, hcolumn]

/-- **The text of a grid is the strips of its rows.** -/
theorem lines_eq (hg : g.Rectangular) :
    g.lines = ((List.range g.rows.size).map fun row => stripOf (g.rowCells row)).flatMap
      Strip.lines := by
  calc g.lines
      = (g.rows.toList.map Array.toList).flatMap (drawRow g.columnWidths) :=
        (List.flatMap_map ..).symm
    _ = _ := by
        rw [map_toList_rows hg, List.flatMap_map, List.flatMap_map]
        simp only [lines_stripOf_rowCells]

/-! ## Seamless grids -/

/-- The ports of neighbouring cells match, and no ports are at the outside but
the top and the bottom of the column `lead`. -/
structure Seamless (g : Grid) (lead : Nat) : Prop where
  rectangular : g.Rectangular
  nonempty : 0 < g.rows.size
  lead_lt : lead < g.columns
  drawable : ∀ row column, (g.cell row column).Drawable
  left_end : ∀ row, (g.cell row 0).hasPort .left = false
  beside : ∀ row column,
    (g.cell row column).hasPort .right = (g.cell row (column + 1)).hasPort .left
  top_end : ∀ column, (g.cell 0 column).hasPort .up = decide (column = lead)
  below : ∀ row column, row + 1 < g.rows.size →
    (g.cell row column).hasPort .down = (g.cell (row + 1) column).hasPort .up
  bottom_end : ∀ row column, row + 1 = g.rows.size →
    (g.cell row column).hasPort .down = decide (column = lead)

/-- The strokes of a wire in the middle of a column. -/
def leadPulses (g : Grid) (lead : Nat) : List Bool :=
  (List.range g.columns).flatMap fun column => pulse (column = lead) (g.columnWidth column)

theorem pulses_rowCells (g : Grid) (side : Side) (row : Nat) :
    pulses side (g.rowCells row) = (List.range g.columns).flatMap fun column =>
      pulse ((g.cell row column).hasPort side) (g.columnWidth column) := List.flatMap_map ..

/-- Cells outside of the columns are empty. -/
theorem cell_of_columns_le (hg : g.Rectangular) {row column : Nat} (h : g.columns ≤ column) :
    g.cell row column = .empty := by
  rw [cell, get?]
  cases hrow : g.rows[row]? with
  | none => rfl
  | some cells =>
    have size_eq : cells.size = g.columns := hg cells (Array.mem_of_getElem? hrow)
    have hnone : cells[column]? = none := Array.getElem?_eq_none (by omega)
    show cells[column]?.getD .empty = .empty
    rw [hnone]
    rfl

namespace Seamless

/-- **The rows of a seamless grid have no seams.** -/
theorem draws_row (h : g.Seamless lead) (row : Nat) :
    (stripOf (g.rowCells row)).Draws false false (pulses .up (g.rowCells row))
      (pulses .down (g.rowCells row)) := by
  refine draws_stripOf ?_ fun x hx => ?_
  · have right_end : (g.cell row g.columns).hasPort .left = false := by
      rw [cell_of_columns_le h.rectangular (Nat.le_refl _)]
      rfl
    rw [rowCells]
    cases hcolumns : g.columns with
    | zero => exact .nil false
    | succ n =>
      rw [hcolumns, ← h.beside] at right_end
      let cell (column : Nat) : Cell × Nat := (g.cell row column, g.columnWidth column)
      have thread : Threads (fun x : Cell × Nat => x.1.hasPort .left) (·.1.hasPort .right)
          ((cell 0).1.hasPort .left) ((List.range (n + 1)).map cell) ((cell n).1.hasPort .right) :=
        Threads.map_range_succ fun column _ => h.beside row column
      rw [h.left_end, right_end] at thread
      exact thread
  · obtain ⟨column, -, rfl⟩ := List.mem_map.mp hx
    exact ⟨h.drawable row column, g.width_le_columnWidth row column⟩

theorem pulses_first (h : g.Seamless lead) : pulses .up (g.rowCells 0) = g.leadPulses lead := by
  simp only [pulses_rowCells, h.top_end, leadPulses]

theorem pulses_next (h : g.Seamless lead) {row : Nat} (hrow : row + 1 < g.rows.size) :
    pulses .down (g.rowCells row) = pulses .up (g.rowCells (row + 1)) := by
  simp only [pulses_rowCells, h.below row _ hrow]

theorem pulses_last (h : g.Seamless lead) {row : Nat} (hrow : row + 1 = g.rows.size) :
    pulses .down (g.rowCells row) = g.leadPulses lead := by
  simp only [pulses_rowCells, h.bottom_end row _ hrow, leadPulses]

/-- **The text of a seamless grid has no seams.** -/
theorem drawing (h : g.Seamless lead) : Drawing g.lines (g.leadPulses lead) := by
  have nonempty := h.nonempty
  rw [lines_eq h.rectangular]
  constructor
  · intro line hline
    obtain ⟨strip, hstrip, hline⟩ := List.mem_flatMap.mp hline
    obtain ⟨row, -, rfl⟩ := List.mem_map.mp hstrip
    exact (h.draws_row row).wired line hline
  · obtain ⟨n, hsize⟩ : ∃ n, g.rows.size = n + 1 := ⟨g.rows.size - 1, by omega⟩
    let strip (row : Nat) : Strip := stripOf (g.rowCells row)
    -- the strips are a thread, and the lines of each strip are one
    have next (row : Nat) (hrow : row < n) :
        strokesAt .down (strip row).bottom = strokesAt .up (strip (row + 1)).top := by
      rw [(h.draws_row row).below_eq, (h.draws_row (row + 1)).above_eq,
        h.pulses_next (by omega)]
    have thread : Threads (fun s : Strip => strokesAt .up s.top) (strokesAt .down ·.bottom)
        (strokesAt .up (strip 0).top) ((List.range (n + 1)).map strip)
        (strokesAt .down (strip n).bottom) := Threads.map_range_succ next
    rw [(h.draws_row 0).above_eq, (h.draws_row n).below_eq, h.pulses_first,
      h.pulses_last hsize.symm, ← hsize] at thread
    refine thread.flatMap fun s hs => ?_
    obtain ⟨row, -, rfl⟩ := List.mem_map.mp hs
    rw [(h.draws_row row).above_eq, (h.draws_row row).below_eq]
    exact (h.draws_row row).stacked

/-- The text has neither missing glyphs nor line feeds within lines. -/
theorem clean (h : g.Seamless lead) : ∀ line ∈ g.lines, Clean line := by
  rw [lines_eq h.rectangular]
  intro line hline
  obtain ⟨strip, hstrip, hline⟩ := List.mem_flatMap.mp hline
  obtain ⟨row, -, rfl⟩ := List.mem_map.mp hstrip
  exact (h.draws_row row).clean line hline

theorem columnWidth_pos (h : g.Seamless lead) : 0 < g.columnWidth lead := by
  have port : (g.cell 0 lead).hasPort .up := (h.top_end lead).trans (decide_eq_true rfl)
  exact Nat.lt_of_lt_of_le (Cell.width_pos port) (g.width_le_columnWidth 0 lead)

end Seamless

/-! ## The place of the lead -/

/-- The column of characters where the wire in the middle of a column runs. -/
def wireColumn (g : Grid) (column : Nat) : Nat :=
  (g.columnWidths.take column).sum + middle (g.columnWidth column)

/-- No wire but the one of the lead. -/
theorem flatMap_pulse_eq_replicate (width : Nat → Nat) {columns : List Nat}
    (h : lead ∉ columns) :
    (columns.flatMap fun column => pulse (column = lead) (width column)) =
      List.replicate (columns.map width).sum false := by
  induction columns with
  | nil => rfl
  | cons column columns ih =>
    obtain ⟨hne, h⟩ := List.ne_and_not_mem_of_not_mem_cons h
    have blank : pulse (column = lead) (width column) = List.replicate (width column) false := by
      rw [decide_eq_false hne.symm]
      rfl
    rw [List.flatMap_cons, ih h, blank, List.replicate_append_replicate, List.map_cons,
      List.sum_cons]

namespace Seamless

/-- **The lead crosses lines in one place.** -/
theorem leadPulses_eq (h : g.Seamless lead) :
    ∃ after, g.leadPulses lead = List.replicate (g.wireColumn lead) false ++
      true :: List.replicate after false := by
  obtain ⟨m, hcolumns⟩ := Nat.exists_eq_add_of_lt h.lead_lt
  have columns : List.range g.columns =
      List.range lead ++ lead :: List.range' (lead + 1) m := by
    rw [hcolumns, Nat.add_assoc, List.range_eq_range', List.range_eq_range',
      ← List.range'_append_1, Nat.zero_add, List.range'_succ]
  have before : (g.columnWidths.take lead).sum = ((List.range lead).map g.columnWidth).sum := by
    rw [columnWidths, ← List.map_take, List.take_range, Nat.min_eq_left (Nat.le_of_lt h.lead_lt)]
  have others : lead ∉ List.range lead ∧ lead ∉ List.range' (lead + 1) m := by
    simp only [List.mem_range, List.mem_range'_1]
    omega
  refine ⟨g.columnWidth lead - (middle (g.columnWidth lead) + 1) +
    ((List.range' (lead + 1) m).map g.columnWidth).sum, ?_⟩
  rw [leadPulses, columns, List.flatMap_append, List.flatMap_cons,
    flatMap_pulse_eq_replicate _ others.1, flatMap_pulse_eq_replicate _ others.2,
    pulse_eq _ h.columnWidth_pos, decide_eq_true rfl, wireColumn, before,
    ← List.replicate_append_replicate, ← List.replicate_append_replicate]
  simp only [List.append_assoc, List.cons_append]

theorem leadPulses_eq_true_iff (h : g.Seamless lead) {column : Nat} :
    (g.leadPulses lead)[column]? = some true ↔ column = g.wireColumn lead := by
  obtain ⟨after, leadPulses_eq⟩ := h.leadPulses_eq
  rw [leadPulses_eq, List.getElem?_append, List.length_replicate]
  grind

theorem length_leadPulses (h : g.Seamless lead) :
    (g.leadPulses lead).length = g.columnWidths.sum := by
  rw [leadPulses, List.length_flatMap, columnWidths]
  refine congrArg List.sum (List.map_congr_left fun column _ => ?_)
  refine length_pulse fun hlead => ?_
  rw [of_decide_eq_true hlead]
  exact h.columnWidth_pos

end Seamless

/-! ## Aligned texts -/

/-- The text of a grid is **aligned**: three lines for each row, as wide as the
columns together, without missing glyphs. The strokes of its characters meet,
and strokes leave it above and below the wire of the column `lead` only. -/
structure Aligned (g : Grid) (lead : Nat) : Prop where
  text : g.render = String.ofList ((textLines g.render).flatMap (· ++ ['\n']))
  height : (textLines g.render).length = 3 * g.rows.size
  width : ∀ line ∈ textLines g.render, line.length = g.columnWidths.sum
  complete : '?' ∉ g.render.toList
  meets : ∀ p q, p.Faces q → InText (textLines g.render) p → InText (textLines g.render) q →
    (StrokeAt (textLines g.render) p ↔ StrokeAt (textLines g.render) q)
  leaves : ∀ p,
    (StrokeAt (textLines g.render) p ∧ ∀ q, p.Faces q → ¬InText (textLines g.render) q) ↔
      p = ⟨0, g.wireColumn lead, .up⟩ ∨ p = ⟨3 * g.rows.size - 1, g.wireColumn lead, .down⟩

theorem length_lines (hg : g.Rectangular) : g.lines.length = 3 * g.rows.size := by
  rw [lines_eq hg, List.length_flatMap, List.map_map]
  show ((List.range g.rows.size).map fun _ => 3).sum = 3 * g.rows.size
  rw [List.map_const', List.sum_replicate_nat, List.length_range, Nat.mul_comm]

/-- **The text of a seamless grid is aligned.** -/
theorem Seamless.aligned (h : g.Seamless lead) : g.Aligned lead := by
  have lines_render : textLines g.render = g.lines :=
    textLines_ofList fun line hline hc => (h.clean line hline _ hc).2 rfl
  have drawing : Drawing g.lines (g.leadPulses lead) := h.drawing
  have height : g.lines.length = 3 * g.rows.size := length_lines h.rectangular
  have nonempty : 0 < g.lines.length := by
    have := h.nonempty
    omega
  constructor
  case text =>
    rw [lines_render]
    rfl
  case height => rw [lines_render, height]
  case width =>
    rw [lines_render, ← h.length_leadPulses]
    exact drawing.stacked.length_eq
  case complete =>
    intro hmem
    rw [render, String.toList_ofList, List.mem_flatMap] at hmem
    obtain ⟨line, hline, hmem⟩ := hmem
    rcases List.mem_append.mp hmem with hmem | hmem
    · exact (h.clean line hline _ hmem).1 rfl
    · exact absurd hmem (by decide)
  case meets =>
    rw [lines_render]
    exact fun p q => drawing.meets
  case leaves =>
    intro p
    obtain ⟨row, column, side⟩ := p
    rw [lines_render, drawing.leaves_iff nonempty, h.leadPulses_eq_true_iff, height]
    have last : row + 1 = 3 * g.rows.size ↔ row = 3 * g.rows.size - 1 := by omega
    simp only [Port.mk.injEq, last]
    constructor
    · rintro ⟨hcolumn, ⟨hside, hrow⟩ | ⟨hside, hrow⟩⟩
      · exact .inl ⟨hrow, hcolumn, hside⟩
      · exact .inr ⟨hrow, hcolumn, hside⟩
    · rintro (⟨hrow, hcolumn, hside⟩ | ⟨hrow, hcolumn, hside⟩)
      · exact ⟨hcolumn, .inl ⟨hside, hrow⟩⟩
      · exact ⟨hcolumn, .inr ⟨hside, hrow⟩⟩

end Grid

end SeriesParallel
