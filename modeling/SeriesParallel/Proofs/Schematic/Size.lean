import SeriesParallel.Proofs.Network.Canonical
import SeriesParallel.Proofs.Schematic.Room

/-!
# Schematic — the size of a layout

A layout is as high as its network: a resistor takes a row, a group two rows
more than its tallest branch, and the wires to the supply two more. It is as
wide as its network, and no wider than need be. The widest element of a chain
has no columns to spare, so its branches are laid out without gaps, and the
widest element of every branch in turn: in the end there is a resistor in every
column.
-/

namespace SeriesParallel

variable {R : Type}

/-! ## Rows -/

mutual

/-- The number of rows an element takes: one for a resistor, two more than the
tallest branch for a group. -/
def Element.height : Element R → Nat
  | .resistor .. => 1
  | .group _ _ bs => 2 + tallest bs

/-- The number of rows a chain takes, those of its elements together. -/
def Chain.height : Chain R → Nat
  | .last e => e.height
  | .link e c => e.height + c.height

/-- The largest number of rows that a branch takes. -/
def tallest : List (Chain R) → Nat
  | [] => 0
  | b :: bs => max b.height (tallest bs)

end

/-- Branches from one common row on reach as far down as the tallest one. -/
theorem foldl_max_height (bs : List (Chain R)) (top reach : Nat) :
    (bs.map fun b => top + b.height).foldl max (top + reach) = top + max reach (tallest bs) := by
  induction bs generalizing reach with
  | nil => simp [tallest]
  | cons b bs ih =>
    have further : max (top + reach) (top + b.height) = top + max reach b.height :=
      Nat.add_max_add_left top reach b.height
    rw [List.map_cons, List.foldl_cons, further, ih, tallest, Nat.max_assoc]

theorem rows_placeBranches {bs : List (Chain R)}
    (h : ∀ b ∈ bs, ∀ s row, (b.place s row).2 = row + b.height) {ts : List Span}
    (hlength : bs.length = ts.length) (row : Nat) :
    (placeBranches row bs ts).2 = bs.map fun b => row + b.height := by
  induction bs generalizing ts with
  | nil => rfl
  | cons b bs ih =>
    cases ts with
    | nil => simp at hlength
    | cons t ts =>
      have others := ih (fun b' hb => h b' (List.mem_cons_of_mem _ hb)) (Nat.succ.inj hlength)
      show (b.place t row).2 :: (placeBranches row bs ts).2 = _
      rw [h b List.mem_cons_self, others, List.map_cons]

/-- **A chain takes the rows of its height**, in any span and from any row on. -/
theorem Chain.place_snd (c : Chain R) (s : Span) (row : Nat) :
    (c.place s row).2 = row + c.height := by
  induction c using Chain.inductionOn generalizing s row with
  | resistor l v r => rfl
  | group l v bs ih =>
    have spans : bs.length = (branchSpans s (bs.map columns)).length := by
      rw [length_branchSpans, List.length_map]
    have merge : mergeRow s row bs = row + 1 + tallest bs := by
      rw [mergeRow, rows_placeBranches ih spans]
      simpa using foldl_max_height bs (row + 1) 0
    rw [place, place_group]
    show mergeRow s row bs + 1 = row + (2 + tallest bs)
    omega
  | link e c he hc =>
    have above : (e.place s row).2 = row + e.height := he s row
    show (c.place s (e.place s row).2).2 = row + (e.height + c.height)
    rw [hc, above, Nat.add_assoc]

/-- The two wires to the supply take the rows that the network does not. -/
theorem Chain.size_rows_layout (c : Chain R) : c.layout.grid.rows.size = 2 + c.height := by
  have network := c.place_snd ⟨0, c.columns⟩ 1
  have next : c.layout.row = 2 + c.height := by
    show (c.place ⟨0, c.columns⟩ 1).2 + 1 = _
    omega
  have upper : c.layout.grid.rows.size ≤ 2 + c.height :=
    Grid.size_fill_le (Nat.zero_le _) fun p hp => next ▸ (c.packed_layout.inside p hp).2.2.2
  -- the lead-out is stored last
  have lower : (c.place ⟨0, c.columns⟩ 1).2 < c.layout.grid.rows.size := by
    rw [Layout.grid, placements_layout, List.foldl_append, List.foldl_cons, List.foldl_nil,
      Grid.size_set]
    exact Nat.le_max_right _ _
  omega

/-! ## Columns -/

/-- **Branches without columns to spare** share out all columns of their group. -/
theorem exists_mem_branchSpans {s : Span} {bs : List (Chain R)}
    (hs : s.width ≤ (bs.map Chain.columns).sum) {column : Nat} (hstart : s.start ≤ column)
    (hstop : column < s.start + (bs.map Chain.columns).sum) :
    ∃ b t, (b, t) ∈ bs.zip (branchSpans s (bs.map Chain.columns)) ∧
      t.start ≤ column ∧ column < t.stop := by
  have no_slack : s.width - (bs.map Chain.columns).sum = 0 := Nat.sub_eq_zero_of_le hs
  have no_gaps : (distributeGaps (s.width - (bs.map Chain.columns).sum)
      ((bs.map Chain.columns).length - 1)).sum = 0 := by
    rw [no_slack]
    exact Nat.le_zero.mp (sum_distributeGaps_le 0 _)
  obtain ⟨t, ht, hcolumn⟩ := exists_mem_spansFrom no_gaps hstart hstop
  obtain ⟨i, hi, rfl⟩ := List.mem_iff_getElem.mp ht
  have hb : i < bs.length := by
    rw [← branchSpans_eq, length_branchSpans, List.length_map] at hi
    exact hi
  refine ⟨bs[i], _, List.mem_of_getElem? (i := i) ?_, hcolumn⟩
  exact List.getElem?_zip_eq_some.mpr
    ⟨List.getElem?_eq_getElem hb, List.getElem?_eq_getElem hi⟩

/-- **There is a resistor in every column that a chain needs**, if it is laid
out in no more columns than that. -/
theorem Chain.exists_resistor_column {c : Chain R} (h : c.NoEmptyGroup) {s : Span}
    (hs : s.width ≤ c.columns) (row : Nat) {column : Nat} (hstart : s.start ≤ column)
    (hstop : column < s.start + c.columns) :
    ∃ p ∈ (c.place s row).1, p.column = column ∧ ∃ label, p.cell = .resistor label := by
  induction c using Chain.inductionOn generalizing s row column with
  | resistor l v r =>
    have one : (last (.resistor l v r)).columns = 1 := rfl
    rw [one] at hs hstop
    refine ⟨⟨row, s.midpoint, .resistor l⟩, List.mem_singleton_self _, ?_, l, rfl⟩
    show s.start + (s.width - 1) / 2 = column
    omega
  | group l v bs ih =>
    obtain ⟨nonempty, inside⟩ := h.group
    rw [columns_group nonempty] at hs hstop
    obtain ⟨b, t, hbt, hleft, hright⟩ := exists_mem_branchSpans hs hstart hstop
    have width := width_of_mem_zip hbt
    have hb : b ∈ bs := (List.of_mem_zip hbt).1
    obtain ⟨p, hp, found⟩ := ih b hb (inside b hb) (Nat.le_of_eq width) (row + 1) hleft
      (by rw [← width]; exact hright)
    exact ⟨p, (Task.Calls.branch l v bs s row hbt).isInfix.subset hp, found⟩
  | link e c he hc =>
    obtain ⟨head, rest⟩ := h.link
    have columns_eq : (link e c).columns = max e.columns c.columns := rfl
    have last_eq : (last e).columns = max 1 e.columns := rfl
    have c_pos := c.columns_pos
    -- the widest part has no columns to spare
    rcases Nat.le_total c.columns e.columns with wide | wide
    · obtain ⟨p, hp, found⟩ := he head (by omega) row hstart (by omega)
      exact ⟨p, (Task.Calls.head e c s row).isInfix.subset hp, found⟩
    · obtain ⟨p, hp, found⟩ := hc rest (by omega) (e.place s row).2 hstart (by omega)
      exact ⟨p, (Task.Calls.rest e c s row).isInfix.subset hp, found⟩

/-! ## The layout -/

/-- **The size of a layout is exact**, for any network: it has the columns that
the network needs and two rows more than the network takes, and laying out a
chain moves on by the rows of the chain. If no group is empty it is tight as
well. There is a resistor in every column, and in a span of fewer columns the
network would not stay within the span. -/
theorem layout_size_exact (c : Chain R) :
    c.layout.grid.columns = c.columns ∧
    c.layout.grid.rows.size = 2 + c.height ∧
    (∀ (b : Chain R) (s : Span) (row : Nat), (b.place s row).2 = row + b.height) ∧
    (c.NoEmptyGroup →
      (∀ column < c.layout.grid.columns, ∃ row label,
        c.layout.grid.get? row column = some (.resistor label)) ∧
      ∀ (s : Span) (row : Nat), (∀ p ∈ (c.place s row).1, p.column < s.stop) →
        c.columns ≤ s.width) := by
  refine ⟨c.columns_grid_layout, c.size_rows_layout, Chain.place_snd, fun nonempty => ⟨?_, ?_⟩⟩
  · intro column hcolumn
    rw [c.columns_grid_layout, ← Nat.zero_add c.columns] at hcolumn
    obtain ⟨p, hp, rfl, label, hlabel⟩ := Chain.exists_resistor_column nonempty
      (s := ⟨0, c.columns⟩) (Nat.le_refl _) 1 (Nat.zero_le column) hcolumn
    have shown := Chain.cell_grid_layout ((Task.isInfix_layout c).subset hp)
    exact ⟨p.row, label, Grid.get?_eq_some_of_cell (shown.trans hlabel) nofun⟩
  · intro s row within
    rcases Nat.lt_or_ge s.width c.columns with narrow | wide
    · -- the last column that the network needs is beside the span
      have columns_pos := c.columns_pos
      have last_lt : s.start + (c.columns - 1) < s.start + c.columns := by omega
      obtain ⟨p, hp, hcolumn, -⟩ := Chain.exists_resistor_column nonempty (Nat.le_of_lt narrow) row
        (Nat.le_add_right _ _) last_lt
      have inside : p.column < s.start + s.width := within p hp
      omega
    · exact wide

/-- Two resistors side by side above five: they have three columns to spare. -/
def twoAboveFive : Chain Nat :=
  .link (.parallel [.last (.ofResistance 1), .last (.ofResistance 2)])
    (.last (.parallel (List.replicate 5 (.last (.ofResistance 4)))))

theorem layout_size_exact_twoAboveFive :
    (twoAboveFive.isCanonical ∧ twoAboveFive.NoEmptyGroup) ∧
      twoAboveFive.layout.grid.rows.size = 8 ∧
      (∀ column < 5, ∃ row label,
        twoAboveFive.layout.grid.get? row column = some (.resistor label)) ∧
      (∀ p ∈ (twoAboveFive.place ⟨2, 5⟩ 3).1, p.column < 7) ∧ twoAboveFive.columns ≤ 5 := by
  have canonical : twoAboveFive.isCanonical := by decide +kernel
  have nonempty : twoAboveFive.NoEmptyGroup := by
    simp [Chain.NoEmptyGroup, twoAboveFive, Element.parallel, Element.ofResistance,
      Element.branches, Element.isResistor]
  have within : ∀ p ∈ (twoAboveFive.place ⟨2, 5⟩ 3).1, p.column < 7 := by decide
  obtain ⟨columns_eq, rows_eq, -, tight⟩ := layout_size_exact twoAboveFive
  obtain ⟨resistors, least⟩ := tight nonempty
  exact ⟨⟨canonical, nonempty⟩, rows_eq, fun column h => resistors column (columns_eq ▸ h), within,
    least ⟨2, 5⟩ 3 within⟩

end SeriesParallel
