import Mathlib.Data.List.Pairwise
import SeriesParallel.Proofs.Network.Components
import SeriesParallel.Proofs.Schematic.Columns
import SeriesParallel.Proofs.Schematic.Filling

/-!
# Schematic — placements that share no place

Whatever the network, canonical or not, laying it out never uses a place twice.
What is placed for a chain fills a block of columns and rows: the columns of
its span, and the rows from the one it starts on to the one after it. Blocks
are put below each other or beside each other, and never overlap.
-/

namespace SeriesParallel

variable {R : Type}

/-! ## Blocks of placements -/

/-- Two placements are at different places. -/
def Placement.Apart (p q : Placement) : Prop := p.row = q.row → p.column ≠ q.column

/-- Placements at different places of a block, with the columns from `left` to
`right` and the rows from `top` to `bottom`, both ends excluded. -/
structure Packed (ps : List Placement) (left right top bottom : Nat) : Prop where
  inside : ∀ p ∈ ps, left ≤ p.column ∧ p.column < right ∧ top ≤ p.row ∧ p.row < bottom
  apart : ps.Pairwise Placement.Apart

namespace Packed

variable {ps qs : List Placement} {left middle right top bottom : Nat}

theorem nil (left right top bottom : Nat) : Packed [] left right top bottom where
  inside := fun _ hp => absurd hp List.not_mem_nil
  apart := .nil

theorem widen {left' right' : Nat} (h : Packed ps left right top bottom) (hleft : left' ≤ left)
    (hright : right ≤ right') : Packed ps left' right' top bottom where
  inside := by
    intro p hp
    have := h.inside p hp
    omega
  apart := h.apart

theorem perm (h : Packed ps left right top bottom) (hps : ps.Perm qs) :
    Packed qs left right top bottom where
  inside := fun p hp => h.inside p (hps.mem_iff.mpr hp)
  apart := by
    have symm {p q : Placement} (h : p.Apart q) : q.Apart p := fun hrow => (h hrow.symm).symm
    exact (hps.pairwise_iff symm).mp h.apart

/-- **Blocks are put below each other.** -/
theorem below (h : Packed ps left right top middle) (h' : Packed qs left right middle bottom)
    (htop : top ≤ middle) (hbottom : middle ≤ bottom) :
    Packed (ps ++ qs) left right top bottom where
  inside := by
    intro p hp
    rcases List.mem_append.mp hp with hp | hp
    · have := h.inside p hp
      omega
    · have := h'.inside p hp
      omega
  apart := by
    refine List.pairwise_append.mpr ⟨h.apart, h'.apart, fun p hp q hq hrow => ?_⟩
    have := h.inside p hp
    have := h'.inside q hq
    omega

/-- **Blocks are put beside each other.** -/
theorem beside (h : Packed ps left middle top bottom) (h' : Packed qs middle right top bottom)
    (hleft : left ≤ middle) (hright : middle ≤ right) :
    Packed (ps ++ qs) left right top bottom where
  inside := by
    intro p hp
    rcases List.mem_append.mp hp with hp | hp
    · have := h.inside p hp
      omega
    · have := h'.inside p hp
      omega
  apart := by
    refine List.pairwise_append.mpr ⟨h.apart, h'.apart, fun p hp q hq _ => ?_⟩
    have := h.inside p hp
    have := h'.inside q hq
    omega

end Packed

/-! ## Rows and columns of cells -/

theorem packed_singleton (row column : Nat) (cell : Cell) :
    Packed [⟨row, column, cell⟩] column (column + 1) row (row + 1) where
  inside := by
    intro p hp
    cases List.mem_singleton.mp hp
    exact ⟨Nat.le_refl _, Nat.lt_succ_self _, Nat.le_refl _, Nat.lt_succ_self _⟩
  apart := List.pairwise_singleton _ _

/-- A column of wires. -/
theorem packed_wires (column fromRow toRow : Nat) :
    Packed (wires column fromRow toRow) column (column + 1) fromRow toRow where
  inside := by
    intro p hp
    obtain ⟨row, hrow, rfl⟩ := List.mem_map.mp hp
    have := List.mem_range'_1.mp hrow
    have below : row < toRow := by omega
    exact ⟨Nat.le_refl _, Nat.lt_succ_self _, this.1, below⟩
  apart := List.pairwise_map.mpr ((List.nodup_range' 1).imp fun hne hrow => absurd hrow hne)

/-- **A connector row** has one cell in a column, also where its junction is
not between its branches. -/
theorem packed_connectorRow {kind : Connector} {row centre left right : Nat} {mids : List Nat}
    (hmids : ∀ m ∈ mids, left ≤ m ∧ m < right) (hleft : left ≤ centre) (hright : centre < right) :
    Packed (connectorRow kind row centre mids) left right row (row + 1) := by
  unfold connectorRow
  split
  next first last hfirst hlast =>
    have first_in := hmids first (List.mem_of_head? hfirst)
    have last_in := hmids last (List.mem_of_getLast? hlast)
    have columns_in (column : Nat)
        (hc : column ∈ (List.range' first (last + 1 - first)).filter (· != centre)) :
        (left ≤ column ∧ column < right) ∧ column ≠ centre := by
      obtain ⟨hrange, hne⟩ := List.mem_filter.mp hc
      have := List.mem_range'_1.mp hrange
      exact ⟨by omega, bne_iff_ne.mp hne⟩
    constructor
    · intro p hp
      rcases List.mem_append.mp hp with hp | hp
      · obtain ⟨column, hc, rfl⟩ := List.mem_map.mp hp
        obtain ⟨⟨hle, hlt⟩, -⟩ := columns_in column hc
        exact ⟨hle, hlt, Nat.le_refl _, Nat.lt_succ_self _⟩
      · cases List.mem_singleton.mp hp
        exact ⟨hleft, hright, Nat.le_refl _, Nat.lt_succ_self _⟩
    · refine List.pairwise_append.mpr ⟨?_, List.pairwise_singleton _ _, fun p hp q hq _ => ?_⟩
      · refine List.pairwise_map.mpr (((List.nodup_range' 1).filter _).imp ?_)
        intro column column' hne _
        exact hne
      · -- the junction comes last, in a column that was left out
        obtain ⟨column, hc, rfl⟩ := List.mem_map.mp hp
        cases List.mem_singleton.mp hq
        exact (columns_in column hc).2
  · exact .nil ..

/-! ## Groups -/

/-- The row where the branches of a group merge that is laid out in a span from
a row on: the one after its tallest branch. -/
def mergeRow (s : Span) (row : Nat) (bs : List (Chain R)) : Nat :=
  (placeBranches (row + 1) bs (branchSpans s (bs.map Chain.columns))).2.foldl max (row + 1)

/-- **The parts of a group**: the split row, the branches, the wires that extend
them, the merge row. -/
theorem place_group (s : Span) (row : Nat) (l : String) (v : Reading R) (bs : List (Chain R)) :
    (Element.group l v bs).place s row =
      let spans := branchSpans s (bs.map Chain.columns)
      let mids := spans.map Span.midpoint
      let branches := placeBranches (row + 1) bs spans
      (connectorRow .split row s.midpoint mids ++ branches.1 ++
        extensions (mergeRow s row bs) mids branches.2 ++
        connectorRow .merge (mergeRow s row bs) s.midpoint mids, mergeRow s row bs + 1) := rfl

theorem lt_mergeRow (s : Span) (row : Nat) (bs : List (Chain R)) : row < mergeRow s row bs :=
  (le_foldl_max _ _).1

/-- The row after a chain is below the row it starts on. -/
theorem Chain.lt_place (c : Chain R) (s : Span) (row : Nat) : row < (c.place s row).2 := by
  induction c using Chain.inductionOn generalizing row with
  | resistor l v r => exact Nat.lt_succ_self row
  | group l v bs ih =>
    have := lt_mergeRow s row bs
    rw [place, place_group]
    exact Nat.lt_succ_of_lt this
  | link e c he hc => exact Nat.lt_trans (he row) (hc _)

/-! ## Chains -/

/-- In any span that has columns enough, a chain is placed in the columns of the
span and the rows it takes. -/
def Chain.Packs (c : Chain R) : Prop :=
  ∀ (s : Span) (row : Nat), c.columns ≤ s.width →
    Packed (c.place s row).1 s.start s.stop row (c.place s row).2

/-- The wires that extend the first branch might as well be placed right below it. -/
theorem perm_placeBranches_cons (b : Chain R) (bs : List (Chain R)) (t : Span) (ts : List Span)
    (top bottom : Nat) :
    ((b.place t top).1 ++ wires t.midpoint (b.place t top).2 bottom ++
        ((placeBranches top bs ts).1 ++
          extensions bottom (ts.map Span.midpoint) (placeBranches top bs ts).2)).Perm
      ((placeBranches top (b :: bs) (t :: ts)).1 ++
        extensions bottom ((t :: ts).map Span.midpoint) (placeBranches top (b :: bs) (t :: ts)).2) := by
  show List.Perm _ ((b.place t top).1 ++ (placeBranches top bs ts).1 ++
    (wires t.midpoint (b.place t top).2 bottom ++
      extensions bottom (ts.map Span.midpoint) (placeBranches top bs ts).2))
  rw [List.append_assoc, List.append_assoc]
  exact .append_left _ (List.perm_append_comm_assoc _ _ _)

/-- Branches in spans side by side, each extended by wires down to a common row. -/
theorem packed_placeBranches {bs : List (Chain R)} (hbs : ∀ b ∈ bs, b.Packs) {ts : List Span}
    {left right top bottom : Nat} (hwidth : ts.map Span.width = bs.map Chain.columns)
    (apart : ts.Pairwise fun t u => t.stop ≤ u.start)
    (hin : ∀ t ∈ ts, left ≤ t.start ∧ t.stop ≤ right)
    (hbottom : ∀ r ∈ (placeBranches top bs ts).2, r ≤ bottom) :
    Packed ((placeBranches top bs ts).1 ++
      extensions bottom (ts.map Span.midpoint) (placeBranches top bs ts).2)
      left right top bottom := by
  induction bs generalizing ts left with
  | nil =>
    cases ts with
    | nil => exact .nil ..
    | cons t ts => simp at hwidth
  | cons b bs ih =>
    cases ts with
    | nil => simp at hwidth
    | cons t ts =>
      obtain ⟨width_eq, hwidth⟩ := List.cons.inj hwidth
      obtain ⟨after, apart⟩ := List.pairwise_cons.mp apart
      obtain ⟨hleft, hright⟩ := hin t List.mem_cons_self
      have hb : (b.place t top).2 ≤ bottom := hbottom _ List.mem_cons_self
      have t_pos : 0 < t.width := width_eq ▸ b.columns_pos
      -- the first branch, down to the common row
      have branch : Packed (b.place t top).1 t.start t.stop top (b.place t top).2 :=
        hbs b List.mem_cons_self t top (Nat.le_of_eq width_eq.symm)
      have wires : Packed (wires t.midpoint (b.place t top).2 bottom) t.start t.stop
          (b.place t top).2 bottom :=
        (packed_wires ..).widen t.start_le_midpoint (Span.midpoint_lt_stop t_pos)
      have first := (branch.below wires (Nat.le_of_lt (b.lt_place t top)) hb).widen hleft
        (Nat.le_refl _)
      -- the other branches, in the columns after it
      have others := ih (fun b' hb => hbs b' (List.mem_cons_of_mem _ hb)) hwidth apart
        (fun u hu => ⟨after u hu, (hin u (List.mem_cons_of_mem _ hu)).2⟩)
        (fun r hr => hbottom r (List.mem_cons_of_mem _ hr))
      exact (first.beside others (Nat.le_trans hleft (Nat.le_add_right _ _)) hright).perm
        (perm_placeBranches_cons b bs t ts top bottom)

/-- **No place is used twice**, for any chain and in any span that is wide enough. -/
theorem Chain.packs (c : Chain R) : c.Packs := by
  induction c using Chain.inductionOn with
  | resistor l v r =>
    intro s row hwidth
    have s_pos : 0 < s.width := Nat.lt_of_lt_of_le (Chain.columns_pos _) hwidth
    exact (packed_singleton ..).widen s.start_le_midpoint (Span.midpoint_lt_stop s_pos)
  | group l v bs ih =>
    intro s row hwidth
    have s_pos : 0 < s.width := Nat.lt_of_lt_of_le (Chain.columns_pos _) hwidth
    have fits : (bs.map columns).sum ≤ s.width := sum_columns_le hwidth
    have branches : Packed _ s.start s.stop (row + 1) (mergeRow s row bs) :=
      packed_placeBranches ih (map_width_branchSpans s _) (pairwise_spansFrom _ _ _)
        (within_branchSpans fits) (le_foldl_max _ _).2
    have connector (kind : Connector) (row : Nat) :
        Packed (connectorRow kind row s.midpoint
          ((branchSpans s (bs.map columns)).map Span.midpoint)) s.start s.stop row (row + 1) :=
      packed_connectorRow (midpoint_mem_branches fits) s.start_le_midpoint
        (Span.midpoint_lt_stop s_pos)
    have whole := ((connector .split row).below branches (Nat.le_succ row) (lt_mergeRow s row bs)).below
      (connector .merge (mergeRow s row bs)) (Nat.le_of_lt (lt_mergeRow s row bs)) (Nat.le_succ _)
    rw [← List.append_assoc] at whole
    exact whole
  | link e c he hc =>
    intro s row hwidth
    obtain ⟨width_e, width_c⟩ := columns_le_of_link hwidth
    exact (he s row width_e).below (hc s _ width_c) (Nat.le_of_lt ((last e).lt_place s row))
      (Nat.le_of_lt (c.lt_place s _))

/-- **A whole circuit uses no place twice**, and no column beside those it has. -/
theorem Chain.packed_layout (c : Chain R) :
    Packed c.layout.placements 0 c.columns 0 c.layout.row := by
  have lead_in (row : Nat) :
      Packed [⟨row, c.leadColumn, .wire⟩] 0 c.columns row (row + 1) := by
    have hstop : c.leadColumn < Span.stop ⟨0, c.columns⟩ := Span.midpoint_lt_stop c.columns_pos
    rw [Span.stop, Nat.zero_add] at hstop
    exact (packed_singleton ..).widen (Nat.zero_le _) hstop
  have network := c.packs ⟨0, c.columns⟩ 1 (Nat.le_refl _)
  rw [Span.stop, Nat.zero_add] at network
  have below := c.lt_place ⟨0, c.columns⟩ 1
  rw [placements_layout]
  exact ((lead_in 0).below network (Nat.zero_le _) (Nat.le_of_lt below)).below (lead_in _)
    (Nat.zero_le _) (Nat.le_succ _)

/-- Every placement of a layout shows in the grid. -/
theorem Chain.cell_grid_layout {c : Chain R} {p : Placement} (hp : p ∈ c.layout.placements) :
    c.layout.grid.cell p.row p.column = p.cell := by
  obtain ⟨inside, apart⟩ := c.packed_layout
  have symm : Std.Symm Placement.Apart := ⟨fun p q h hrow hcolumn => h hrow.symm hcolumn.symm⟩
  refine Grid.cell_fill_of_mem (Grid.rectangular_blank _) (fun q hq => (inside q hq).2.1) hp ?_
  intro q hq hrow hcolumn
  by_cases hpq : p = q
  · exact hpq
  · exact absurd hcolumn (apart.forall hp hq hpq hrow)

end SeriesParallel
