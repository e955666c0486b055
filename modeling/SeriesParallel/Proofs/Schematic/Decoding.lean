import Mathlib.Data.List.Sort
import SeriesParallel.Proofs.Network.Outline
import SeriesParallel.Proofs.Schematic.Faithful

/-!
# Schematic — reading a drawing

A drawing can be read back. Down a column there are resistors and splits, one
for each element of a chain, until a cell of another kind ends the chain. A
split shows its branches by the taps of its connector row, and each branch is
read from its tap on. The columns of a branch cannot be read off before its
elements: spans of different widths have one middle. So two layouts are
compared by the row and the column that they start at, and not by their spans.
-/

namespace SeriesParallel

variable {R : Type} {g : Grid} {s s' : Span} {row : Nat}

/-! ## What a grid holds -/

/-- A grid holds placements when it shows each of them at its place. -/
def Grid.Holds (g : Grid) (ps : List Placement) : Prop :=
  ∀ p ∈ ps, g.cell p.row p.column = p.cell

namespace Grid.Holds

variable {ps qs : List Placement}

theorem left (h : g.Holds (ps ++ qs)) : g.Holds ps :=
  fun p hp => h p (List.mem_append_left _ hp)

theorem right (h : g.Holds (ps ++ qs)) : g.Holds qs :=
  fun p hp => h p (List.mem_append_right _ hp)

end Grid.Holds

/-- **The grid of a branching network holds its layout**: nothing is placed
over anything else. -/
theorem Chain.holds_layout {c : Chain R} (h : c.Branching) :
    c.layout.grid.Holds c.layout.placements := by
  obtain ⟨ws, n, traced⟩ := exists_traced h
  intro p hp
  obtain ⟨x, hx, rfl⟩ := (traced.depicts.placements p).mp hp
  exact traced.shows x hx

/-- Whether an element begins at a cell: the cell is a resistor or a split. -/
def Cell.begins : Cell → Bool
  | resistor _ => true
  | split _ => true
  | _ => false

/-! ## Connector rows -/

section

variable {kind : Connector} {centre first last first' last' : Nat} {mids mids' : List Nat}

/-- The cells of a connector row that a grid holds. -/
theorem Spreads.cell_eq (h : Spreads mids centre first last)
    (held : g.Holds (connectorRow kind row centre mids)) {column : Nat} (hfirst : first ≤ column)
    (hlast : column ≤ last) : g.cell row column = kind.cellAt centre first last mids column :=
  held ⟨row, column, _⟩ ((mem_connectorRow h).mpr ⟨rfl, hfirst, hlast, rfl⟩)

/-- Where two connector rows are both drawn, they have the same ports. -/
theorem Spreads.hasPort_iff (h : Spreads mids centre first last)
    (h' : Spreads mids' centre first' last')
    (held : g.Holds (connectorRow kind row centre mids))
    (held' : g.Holds (connectorRow kind row centre mids')) {column : Nat}
    (hin : first ≤ column ∧ column ≤ last) (hin' : first' ≤ column ∧ column ≤ last')
    (side : Side) : (kind.cellAt centre first last mids column).hasPort side ↔
      (kind.cellAt centre first' last' mids' column).hasPort side := by
  rw [← h.cell_eq held hin.1 hin.2, ← h'.cell_eq held' hin'.1 hin'.2]

/-- The connector row of a junction does not end further to the left than
another one: this one would go on there. -/
theorem Spreads.first_le (h : Spreads mids centre first last)
    (h' : Spreads mids' centre first' last')
    (held : g.Holds (connectorRow kind row centre mids))
    (held' : g.Holds (connectorRow kind row centre mids')) : first' ≤ first := by
  by_contra hlt
  have le_centre := h'.le_centre
  have centre_le := h.centre_le
  have centre_le' := h'.centre_le
  have inside : first ≤ first' ∧ first' ≤ last := by omega
  have ports := h.hasPort_iff h' held held' inside (by omega) .left
  rw [hasPort_cellAt h, hasPort_cellAt h'] at ports
  have apart : first' ≠ first := by omega
  exact ports.mp apart rfl

theorem Spreads.le_last (h : Spreads mids centre first last)
    (h' : Spreads mids' centre first' last')
    (held : g.Holds (connectorRow kind row centre mids))
    (held' : g.Holds (connectorRow kind row centre mids')) : last ≤ last' := by
  by_contra hlt
  have le_centre := h.le_centre
  have le_centre' := h'.le_centre
  have centre_le' := h'.centre_le
  have inside : first ≤ last' ∧ last' ≤ last := by omega
  have ports := h.hasPort_iff h' held held' inside (by omega) .right
  rw [hasPort_cellAt h, hasPort_cellAt h'] at ports
  have apart : last' ≠ last := by omega
  exact ports.mp apart rfl

/-- **A split shows its branches**: the taps of its connector row. -/
theorem Spreads.mids_unique (h : Spreads mids centre first last)
    (h' : Spreads mids' centre first' last') (sorted : mids.Pairwise (· < ·))
    (sorted' : mids'.Pairwise (· < ·)) (held : g.Holds (connectorRow .split row centre mids))
    (held' : g.Holds (connectorRow .split row centre mids')) : mids = mids' := by
  have first_eq : first = first' :=
    Nat.le_antisymm (h'.first_le h held' held) (h.first_le h' held held')
  have last_eq : last = last' :=
    Nat.le_antisymm (h.le_last h' held held') (h'.le_last h held' held)
  subst first_eq last_eq
  refine sorted.eq_of_mem_iff sorted' fun m => ?_
  have ports (hin : first ≤ m ∧ m ≤ last) : m ∈ mids ↔ m ∈ mids' := by
    have := h.hasPort_iff h' held held' hin hin .down
    rwa [hasPort_cellAt h, hasPort_cellAt h'] at this
  exact ⟨fun hm => (ports (h.bounds m hm)).mp hm, fun hm => (ports (h'.bounds m hm)).mpr hm⟩

/-- No element begins in the row where branches merge. -/
theorem begins_cellAt_merge (column : Nat) :
    (Connector.merge.cellAt centre first last mids column).begins = false := by
  unfold Connector.cellAt
  split <;> rfl

end

/-! ## Layouts that a grid holds -/

/-- A grid holds the layout of a branching chain in a span, from a row on. -/
structure Chain.HeldIn (c : Chain R) (g : Grid) (s : Span) (row : Nat) : Prop where
  branching : c.Branching
  fits : c.columns ≤ s.width
  holds : g.Holds (c.place s row).1

/-- No element begins below a chain, so that it is seen to end. -/
def Chain.EndsIn (c : Chain R) (g : Grid) (s : Span) (row : Nat) : Prop :=
  (g.cell (c.place s row).2 s.midpoint).begins = false

namespace Chain.HeldIn

theorem link {e : Element R} {c : Chain R} (h : (link e c).HeldIn g s row) :
    (last e).HeldIn g s row ∧ c.HeldIn g s (e.place s row).2 := by
  obtain ⟨branching, fits, holds⟩ := h
  obtain ⟨branching_e, branching_c⟩ := branching.link
  obtain ⟨fits_e, fits_c⟩ := columns_le_of_link fits
  exact ⟨⟨branching_e, fits_e, holds.left⟩, ⟨branching_c, fits_c, holds.right⟩⟩

theorem resistor_cell {l : String} {v : Reading R} {r : R}
    (h : (last (.resistor l v r)).HeldIn g s row) : g.cell row s.midpoint = .resistor l :=
  h.holds ⟨row, s.midpoint, .resistor l⟩ (List.mem_singleton.mpr rfl)

/-! ### Groups -/

section

variable {l : String} {v : Reading R} {bs : List (Chain R)}

/-- The spans of the branches of a group. -/
theorem divides (h : (last (.group l v bs)).HeldIn g s row) :
    Span.Divides (branchSpans s (bs.map columns)) s := divides_branches h.branching.two_le h.fits

/-- The parts of the layout of a group, which end on a common row. -/
theorem group_parts (h : (last (.group l v bs)).HeldIn g s row) :
    let ts := branchSpans s (bs.map columns)
    let rows := (placeBranches (row + 1) bs ts).2
    let bottom := rows.foldl max (row + 1)
    g.Holds (connectorRow .split row s.midpoint (ts.map Span.midpoint)) ∧
      g.Holds (placeBranches (row + 1) bs ts).1 ∧
      g.Holds (extensions bottom (ts.map Span.midpoint) rows) ∧
      g.Holds (connectorRow .merge bottom s.midpoint (ts.map Span.midpoint)) :=
  ⟨h.holds.left.left.left, h.holds.left.left.right, h.holds.left.right, h.holds.right⟩

/-- A group begins with a split. -/
theorem group_cell (h : (last (.group l v bs)).HeldIn g s row) :
    ∃ j, g.cell row s.midpoint = .split j := by
  obtain ⟨first, last, spreads, -⟩ := h.divides.exists_spreads
  have cell := spreads.cell_eq h.group_parts.1 spreads.le_centre spreads.centre_le
  rw [Connector.cellAt, if_pos rfl] at cell
  exact ⟨_, cell⟩

end

/-- **An element begins where a chain does.** -/
theorem begins {c : Chain R} (h : c.HeldIn g s row) :
    (g.cell row s.midpoint).begins = true := by
  have element (e : Element R) (he : (last e).HeldIn g s row) :
      (g.cell row s.midpoint).begins = true := by
    cases e with
    | resistor l v r =>
      rw [he.resistor_cell]
      rfl
    | group l v bs =>
      obtain ⟨j, hj⟩ := he.group_cell
      rw [hj]
      rfl
  cases c with
  | last e => exact element e h
  | link e c => exact element e h.link.1

end Chain.HeldIn

/-! ### Branches -/

/-- A grid holds the layouts of branches in their spans, all from one row on,
and shows where each of them ends. -/
def BranchesHeldIn (g : Grid) (top : Nat) (bs : List (Chain R)) (ts : List Span) : Prop :=
  List.Forall₂ (fun b t => b.HeldIn g t top ∧ b.EndsIn g t top) bs ts

/-- Below its last row a branch ends in the wire that extends it, or else in
the row where the branches merge. -/
theorem branchesHeldIn {bs : List (Chain R)} {ts : List Span} {top bottom : Nat}
    (branching : ∀ b ∈ bs, b.Branching) (hwidth : ts.map Span.width = bs.map Chain.columns)
    (inside : g.Holds (placeBranches top bs ts).1)
    (extended : g.Holds
      (extensions bottom (ts.map Span.midpoint) (placeBranches top bs ts).2))
    (hrows : ∀ r ∈ (placeBranches top bs ts).2, r ≤ bottom)
    (merge : ∀ m ∈ ts.map Span.midpoint, (g.cell bottom m).begins = false) :
    BranchesHeldIn g top bs ts := by
  induction bs generalizing ts with
  | nil =>
    cases ts with
    | nil => exact .nil
    | cons t ts => simp at hwidth
  | cons b bs ih =>
    cases ts with
    | nil => simp at hwidth
    | cons t ts =>
      obtain ⟨width_eq, hwidth⟩ := List.cons.inj hwidth
      have extended : g.Holds (wires t.midpoint (b.place t top).2 bottom ++
          extensions bottom (ts.map Span.midpoint) (placeBranches top bs ts).2) := extended
      have hrow : (b.place t top).2 ≤ bottom := hrows _ List.mem_cons_self
      have ends : b.EndsIn g t top := by
        unfold Chain.EndsIn
        by_cases hbottom : (b.place t top).2 = bottom
        · rw [hbottom]
          exact merge _ List.mem_cons_self
        · have wire : g.cell (b.place t top).2 t.midpoint = .wire := by
            refine extended.left ⟨(b.place t top).2, t.midpoint, .wire⟩ (List.mem_map.mpr ?_)
            exact ⟨_, List.mem_range'_1.mpr ⟨Nat.le_refl _, by omega⟩, rfl⟩
          rw [wire]
          rfl
      refine .cons ⟨⟨branching b List.mem_cons_self, Nat.le_of_eq width_eq.symm, inside.left⟩, ends⟩ ?_
      exact ih (fun b' hb => branching b' (List.mem_cons_of_mem _ hb)) hwidth inside.right
        extended.right (fun r hr => hrows r (List.mem_cons_of_mem _ hr))
        fun m hm => merge m (List.mem_cons_of_mem _ hm)

theorem Chain.HeldIn.branches {l : String} {v : Reading R} {bs : List (Chain R)}
    (h : (last (.group l v bs)).HeldIn g s row) :
    BranchesHeldIn g (row + 1) bs (branchSpans s (bs.map columns)) := by
  obtain ⟨first, last, spreads, -⟩ := h.divides.exists_spreads
  obtain ⟨-, inside, extended, merge⟩ := h.group_parts
  refine branchesHeldIn (fun b hb => h.branching.branch hb) (map_width_branchSpans s _) inside
    extended (le_foldl_max _ _).2 fun m hm => ?_
  obtain ⟨hfirst, hlast⟩ := spreads.bounds m hm
  rw [spreads.cell_eq merge hfirst hlast]
  exact begins_cellAt_merge m

/-! ## One drawing, one shape -/

mutual

/-- Elements whose layouts begin at one place have one shape, and end on one row. -/
theorem Element.shape_unique : (e e' : Element R) → {s s' : Span} → {row : Nat} →
    (Chain.last e).HeldIn g s row → (Chain.last e').HeldIn g s' row →
    s.midpoint = s'.midpoint → e.shape = e'.shape ∧ (e.place s row).2 = (e'.place s' row).2
  | .resistor .., .resistor .., _, _, _, _, _, _ => ⟨rfl, rfl⟩
  | .resistor .., .group .., s, s', row, h, h', hmid => by
    obtain ⟨j, hj⟩ := h'.group_cell
    have cell := h.resistor_cell
    rw [hmid, hj] at cell
    exact Cell.noConfusion cell
  | .group .., .resistor .., s, s', row, h, h', hmid => by
    obtain ⟨j, hj⟩ := h.group_cell
    have cell := h'.resistor_cell
    rw [← hmid, hj] at cell
    exact Cell.noConfusion cell
  | .group l v bs, .group l' v' bs', s, s', row, h, h', hmid => by
    obtain ⟨first, last, spreads, -⟩ := h.divides.exists_spreads
    obtain ⟨first', last', spreads', -⟩ := h'.divides.exists_spreads
    have split := h.group_parts.1
    have split' := h'.group_parts.1
    rw [← hmid] at spreads' split'
    have mids := spreads.mids_unique spreads' h.divides.pairwise_midpoint
      h'.divides.pairwise_midpoint split split'
    obtain ⟨shapes, rows⟩ := branchShapes_unique bs bs' h.branches h'.branches mids
    refine ⟨by rw [Element.shape_group, Element.shape_group, shapes], ?_⟩
    simp only [Element.place, rows]

/-- Chains whose layouts begin at one place, and are seen to end, have one
shape and end on one row. -/
theorem Chain.shape_unique : (c c' : Chain R) → {s s' : Span} → {row : Nat} →
    c.HeldIn g s row → c'.HeldIn g s' row → c.EndsIn g s row → c'.EndsIn g s' row →
    s.midpoint = s'.midpoint → c.shape = c'.shape ∧ (c.place s row).2 = (c'.place s' row).2
  | .last e, .last e', _, _, _, h, h', _, _, hmid => by
    obtain ⟨shape, row⟩ := e.shape_unique e' h h' hmid
    exact ⟨congrArg Chain.last shape, row⟩
  | .last e, .link e' c', _, _, _, h, h', ends, _, hmid => by
    -- one chain ends where an element of the other one begins
    obtain ⟨-, row⟩ := e.shape_unique e' h h'.link.1 hmid
    have begins := h'.link.2.begins
    rw [← row, ← hmid] at begins
    exact Bool.noConfusion (begins.symm.trans ends)
  | .link e c, .last e', _, _, _, h, h', _, ends', hmid => by
    obtain ⟨-, row⟩ := e.shape_unique e' h.link.1 h' hmid
    have begins := h.link.2.begins
    rw [row, hmid] at begins
    exact Bool.noConfusion (begins.symm.trans ends')
  | .link e c, .link e' c', _, _, _, h, h', ends, ends', hmid => by
    obtain ⟨shape_e, row_e⟩ := e.shape_unique e' h.link.1 h'.link.1 hmid
    have held := h.link.2
    have ends : c.EndsIn g _ (e.place _ _).2 := ends
    rw [row_e] at held ends
    obtain ⟨shape_c, row_c⟩ := c.shape_unique c' held h'.link.2 ends ends' hmid
    refine ⟨by rw [Chain.shape_link, Chain.shape_link, shape_e, shape_c], ?_⟩
    simp only [Chain.place, row_c, row_e]

/-- Branches that are read from the same taps have the same shapes, and end on
the same rows. -/
theorem branchShapes_unique : (bs bs' : List (Chain R)) → {ts ts' : List Span} → {top : Nat} →
    BranchesHeldIn g top bs ts → BranchesHeldIn g top bs' ts' →
    ts.map Span.midpoint = ts'.map Span.midpoint →
    branchShapes bs = branchShapes bs' ∧
      (placeBranches top bs ts).2 = (placeBranches top bs' ts').2
  | [], [], _, _, _, .nil, .nil, _ => ⟨rfl, rfl⟩
  | [], _ :: _, _, _, _, .nil, .cons _ _, hmids => absurd hmids (by simp)
  | _ :: _, [], _, _, _, .cons _ _, .nil, hmids => absurd hmids (by simp)
  | b :: bs, b' :: bs', _, _, _, .cons hb hbs, .cons hb' hbs', hmids => by
    obtain ⟨hmid, hmids⟩ := List.cons.inj hmids
    obtain ⟨shape, row⟩ := b.shape_unique b' hb.1 hb'.1 hb.2 hb'.2 hmid
    obtain ⟨shapes, rows⟩ := branchShapes_unique bs bs' hbs hbs' hmids
    refine ⟨by rw [branchShapes_cons, branchShapes_cons, shape, shapes], ?_⟩
    simp only [placeBranches, row, rows]

end

/-! ## Whole drawings -/

/-- The network of a layout begins below the lead-in, and ends with the lead-out. -/
theorem Chain.heldIn_layout {c : Chain R} (h : c.Branching) :
    c.HeldIn c.layout.grid ⟨0, c.columns⟩ 1 ∧ c.EndsIn c.layout.grid ⟨0, c.columns⟩ 1 := by
  have held := holds_layout h
  rw [placements_layout] at held
  have inside : c.layout.grid.Holds (c.place ⟨0, c.columns⟩ 1).1 :=
    fun p hp => held.left p (List.mem_cons_of_mem _ hp)
  have leadOut : c.layout.grid.cell (c.place ⟨0, c.columns⟩ 1).2 c.leadColumn = .wire :=
    held.right _ List.mem_cons_self
  refine ⟨⟨h, Nat.le_refl _, inside⟩, ?_⟩
  show (c.layout.grid.cell _ c.leadColumn).begins = false
  rw [leadOut]
  rfl

/-- **Networks with one grid have one shape.** -/
theorem Chain.shape_eq_of_grid_eq {c c' : Chain R} (branching : c.Branching)
    (branching' : c'.Branching) (h : c.layout.grid = c'.layout.grid) : c.shape = c'.shape := by
  obtain ⟨held, ends⟩ := heldIn_layout branching
  obtain ⟨held', ends'⟩ := heldIn_layout branching'
  have columns_eq : c.columns = c'.columns := by
    rw [← c.columns_grid_layout, h, c'.columns_grid_layout]
  rw [← h] at held' ends'
  exact (c.shape_unique c' held held' ends ends' (by rw [columns_eq])).1

/-- Labels do not matter to whether a network branches. -/
theorem Chain.Branching.assignLabels {c : Chain R} (h : c.Branching) (s : LabelSequence) :
    (c.assignLabels s).1.Branching := by
  have label (e : Element R) : (e.unlabelled.isResistor = false → 2 ≤ e.unlabelled.branches.length) ↔
      (e.isResistor = false → 2 ≤ e.branches.length) := by
    cases e with
    | resistor l v r => rfl
    | group l v bs => simp only [Element.unlabelled, Element.isResistor, Element.branches,
        unlabelledBranches_eq_map, List.length_map]
  refine (forall_mem_iff_of_map_eq label ?_).mpr h
  rw [← components_unlabelled, unlabelled_assignLabels, components_unlabelled]

/-- **A drawing determines its circuit.** When canonical networks without empty
groups, labelled from the first label on, have equal grids, they have the same
elements and branches in the same order at every depth, with the same labels. -/
theorem layout_determines_outline (c c' : Chain R) (canonical : c.isCanonical)
    (canonical' : c'.isCanonical) (nonempty : c.NoEmptyGroup) (nonempty' : c'.NoEmptyGroup)
    (h : (c.assignLabels {}).1.layout.grid = (c'.assignLabels {}).1.layout.grid) :
    (c.assignLabels {}).1.outline = (c'.assignLabels {}).1.outline := by
  have branching := (c.branching_of_isCanonical canonical nonempty).assignLabels {}
  have branching' := (c'.branching_of_isCanonical canonical' nonempty').assignLabels {}
  have labelled := Chain.shape_eq_of_grid_eq branching branching' h
  rw [Chain.shape_assignLabels, Chain.shape_assignLabels] at labelled
  exact Chain.outline_assignLabels_of_shape_eq labelled {}

/-- The network of `groupInBranch` with other resistances, and without labels. -/
def groupInBranchUnlabelled : Chain Nat :=
  .last (.group "" .blank [.last (.resistor "" .blank 10),
    .link (.group "" .blank [.last (.resistor "" .blank 20), .last (.resistor "" .blank 30)])
      (.last (.resistor "" .blank 40))])

/-- Resistances do not show in the grid. -/
theorem layout_determines_outline_groupInBranch :
    (groupInBranch.assignLabels {}).1.layout.grid =
        (groupInBranchUnlabelled.assignLabels {}).1.layout.grid ∧
      (groupInBranch.assignLabels {}).1.outline =
        (groupInBranchUnlabelled.assignLabels {}).1.outline := by
  have canonical : groupInBranch.isCanonical ∧ groupInBranchUnlabelled.isCanonical := by
    simp [Chain.isCanonical, Chain.preOrder_eq_nodes, groupInBranch, groupInBranchUnlabelled,
      Chain.nodes, Element.nodes, branchNodes, Chain.head, Element.isSettled, Chain.isLoneGroup]
  have nonempty : groupInBranch.NoEmptyGroup ∧ groupInBranchUnlabelled.NoEmptyGroup := by
    simp [Chain.NoEmptyGroup, groupInBranch, groupInBranchUnlabelled, Chain.components_group,
      Chain.components_resistor, Chain.components_link, Element.branches, Element.isResistor]
  have drawn : (groupInBranch.assignLabels {}).1.layout.grid =
      (groupInBranchUnlabelled.assignLabels {}).1.layout.grid := by decide +kernel
  exact ⟨drawn, layout_determines_outline groupInBranch groupInBranchUnlabelled canonical.1
    canonical.2 nonempty.1 nonempty.2 drawn⟩

end SeriesParallel
