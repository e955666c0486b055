import Mathlib.Data.List.Pairwise
import SeriesParallel.Proofs.Schematic.Drawings
import SeriesParallel.Proofs.Schematic.Filling

/-!
# Schematic — the drawing is the circuit

The grid of a network shows the contacts of one strand from the lead-in to the
lead-out, and nothing else. A path of wire stays at one junction of the
network, as every step of it does. The other way round, ports at one junction
are joined because the strand is connected.
-/

namespace SeriesParallel

variable {R : Type}

/-! ## Labels -/

/-- The label of a placed resistor. -/
def Placement.resistor? (p : Placement) : Option String :=
  match p.cell with
  | .resistor l => some l
  | _ => none

theorem Placement.resistor?_eq_some {p : Placement} {l : String} :
    p.resistor? = some l ↔ p.cell = .resistor l := by
  obtain ⟨row, column, cell⟩ := p
  cases cell <;> simp [resistor?]

theorem resistors_connectorRow (kind : Connector) (row centre : Nat) (mids : List Nat) :
    (connectorRow kind row centre mids).filterMap Placement.resistor? = [] := by
  unfold connectorRow
  split
  · cases kind <;> simp [Placement.resistor?, Connector.cell]
  · rfl

theorem resistors_extensions (bottom : Nat) (mids rows : List Nat) :
    (extensions bottom mids rows).filterMap Placement.resistor? = [] := by
  apply List.filterMap_eq_nil_iff.mpr
  intro p hp
  obtain ⟨⟨mid, row⟩, -, hp⟩ := List.mem_flatMap.mp hp
  obtain ⟨r, -, rfl⟩ := List.mem_map.mp hp
  rfl

theorem resistors_placeBranches {bs : List (Chain R)}
    (hbs : ∀ b ∈ bs, ∀ s row, (b.place s row).1.filterMap Placement.resistor? = b.resistorLabels)
    {ts : List Span} (hlen : ts.length = bs.length) (row : Nat) :
    (placeBranches row bs ts).1.filterMap Placement.resistor? = bs.flatMap Chain.resistorLabels := by
  induction bs generalizing ts with
  | nil =>
    cases ts with
    | nil => rfl
    | cons t ts => simp at hlen
  | cons b bs ih =>
    cases ts with
    | nil => simp at hlen
    | cons t ts =>
      have others := ih (fun b' hb => hbs b' (List.mem_cons_of_mem _ hb)) (Nat.succ.inj hlen)
      rw [placeBranches, List.filterMap_append, hbs b List.mem_cons_self, others,
        List.flatMap_cons]

/-- **Every resistor is placed once**, in canonical order. -/
theorem Chain.resistors_place (c : Chain R) (s : Span) (row : Nat) :
    (c.place s row).1.filterMap Placement.resistor? = c.resistorLabels := by
  induction c using Chain.inductionOn generalizing s row with
  | resistor l v r => rw [resistorLabels_resistor]; rfl
  | group l v bs ih =>
    have hlen : (branchSpans s (bs.map columns)).length = bs.length := by
      rw [length_branchSpans, List.length_map]
    rw [resistorLabels_group]
    simp only [place, Element.place, List.filterMap_append, resistors_connectorRow,
      resistors_extensions, resistors_placeBranches ih hlen, List.nil_append, List.append_nil]
  | link e c he hc =>
    have above := he s row
    rw [place] at above
    rw [place, List.filterMap_append, above, hc, resistorLabels_link]

theorem Chain.resistors_layout (c : Chain R) :
    c.layout.placements.filterMap Placement.resistor? = c.resistorLabels := by
  rw [placements_layout, List.filterMap_append, List.filterMap_cons, resistors_place]
  exact List.append_nil _

/-- Distinct labels are on distinct placements. -/
theorem eq_of_resistor?_eq {ps : List Placement} (h : (ps.filterMap Placement.resistor?).Nodup)
    {p q : Placement} {l : String} (hp : p ∈ ps) (hq : q ∈ ps) (hpl : p.resistor? = some l)
    (hql : q.resistor? = some l) : p = q := by
  have apart := List.pairwise_filterMap.mp h
  have symm : Std.Symm fun x y : Placement =>
      ∀ l, x.resistor? = some l → ∀ l', y.resistor? = some l' → l ≠ l' :=
    ⟨fun x y hxy l hl l' hl' => (hxy l' hl' l hl).symm⟩
  by_cases hpq : p = q
  · exact hpq
  · exact absurd rfl (apart.forall hp hq hpq l hpl l hql)

/-! ## The strand in the grid -/

/-- The top of the lead-in. -/
def Chain.leadInPort (c : Chain R) : Port := ⟨0, c.leadColumn, .up⟩

/-- The bottom of the lead-out, on the last row of the grid. -/
def Chain.leadOutPort (c : Chain R) : Port := ⟨c.layout.grid.rows.size - 1, c.leadColumn, .down⟩

/-- The terminals of the supply face no place within the grid. -/
theorem Chain.not_faces_of_row_lt {c : Chain R} {q : Port}
    (hq : q.row < c.layout.grid.rows.size) :
    ¬c.leadInPort.Faces q ∧ ¬c.leadOutPort.Faces q := by
  refine ⟨Port.not_faces_up_zero, fun faces => ?_⟩
  have below : q.row = c.layout.grid.rows.size - 1 + 1 := faces.row_eq_succ
  omega

/-- A grid filled with the placements of a block shows its contacts, and
nothing else. -/
theorem shows_fill {ws : Set Contact} {ps : List Placement} {es : List Edge}
    {columns top bottom i o : Nat} {ins outs : List Nat}
    (block : Block ws 0 columns top bottom ins i outs o) (depicts : Depicts ws ps es) :
    ((Grid.blank columns).fill ps).Shows ws ∧
      ∀ row column, ((Grid.blank columns).fill ps).cell row column ≠ .empty →
        ∃ x ∈ ws, x.row = row ∧ x.column = column := by
  have blank := Grid.rectangular_blank columns
  have hcolumn : ∀ p ∈ ps, p.column < columns := by
    intro p hp
    obtain ⟨x, hx, rfl⟩ := (depicts.placements p).mp hp
    exact (block.inside x hx).2.1
  refine ⟨fun x hx => ?_, fun row column hcell => ?_⟩
  · refine Grid.cell_fill_of_mem blank hcolumn ((depicts.placements _).mpr ⟨x, hx, rfl⟩) ?_
    intro q hq hrow hcolumn
    obtain ⟨y, hy, rfl⟩ := (depicts.placements q).mp hq
    rw [block.distinct x hx y hy hrow hcolumn]
  · -- what is not placed stays as blank as the grid was
    by_cases hsome : ∃ p ∈ ps, row = p.row ∧ column = p.column
    · obtain ⟨p, hp, rfl, rfl⟩ := hsome
      obtain ⟨x, hx, rfl⟩ := (depicts.placements p).mp hp
      exact ⟨x, hx, rfl, rfl⟩
    · have hnone : ∀ p ∈ ps, ¬(row = p.row ∧ column = p.column) := fun p hp h => hsome ⟨p, hp, h⟩
      rw [Grid.cell_fill_of_forall_ne blank hcolumn hnone, Grid.cell_blank] at hcell
      exact absurd rfl hcell

/-- The contacts of a whole circuit, as its grid shows them. -/
structure Chain.Traced (c : Chain R) (ws : Set Contact) (n : Nat) : Prop where
  strand : Strand ws 0 c.columns 0 c.layout.row c.leadColumn 0 1 2 n
  depicts : Depicts ws c.layout.placements c.edges
  shows : c.layout.grid.Shows ws
  only : ∀ row column, c.layout.grid.cell row column ≠ .empty →
    ∃ x ∈ ws, x.row = row ∧ x.column = column

/-- **The grid of a branching network shows one strand**, from the lead-in to
the lead-out. -/
theorem Chain.exists_traced {c : Chain R} (h : c.Branching) : ∃ ws n, c.Traced ws n := by
  have hstop : Span.stop ⟨0, c.columns⟩ = c.columns := Nat.zero_add _
  obtain ⟨ws, strand, depicts⟩ := drawn h ⟨0, c.columns⟩ 1 0 1 2 (Nat.le_refl _) (by omega)
    (by omega) (by omega)
  rw [hstop] at strand
  -- the strand of the network, between the wires that lead to the supply
  have strand := strand.leadIn.leadOut
  have depicts := ((depicts_wireAt 0 c.leadColumn 0).union depicts).union
    (depicts_wireAt (c.place ⟨0, c.columns⟩ 1).2 c.leadColumn 1)
  rw [List.nil_append, List.append_nil] at depicts
  have fill := shows_fill strand.block depicts
  exact ⟨_, _, strand, depicts, fill.1, fill.2⟩

namespace Chain.Traced

variable {c : Chain R} {ws : Set Contact} {n : Nat} {p q : Port} {j : Nat}

theorem hasPort_iff (h : c.Traced ws n) : c.layout.grid.HasPort p ↔ ∃ j, Touches ws p j := by
  constructor
  · intro hp
    have hcell : c.layout.grid.cell p.row p.column ≠ .empty := by
      intro hempty
      simp [Grid.HasPort, hempty, Cell.hasPort] at hp
    obtain ⟨x, hx, hrow, hcolumn⟩ := h.only _ _ hcell
    refine ⟨_, x, hx, hrow, hcolumn, ?_, rfl⟩
    rw [← h.shows x hx, hrow, hcolumn]
    exact hp
  · intro hp
    obtain ⟨j, hp⟩ := hp
    exact h.shows.hasPort hp

/-- The grid ends with the row of the lead-out. -/
theorem size_eq (h : c.Traced ws n) : c.layout.grid.rows.size = c.layout.row := by
  obtain ⟨row, hrow, hexit⟩ := h.strand.exit
  have hlast : row < c.layout.grid.rows.size := (h.shows.hasPort hexit).row_lt
  have hsize : c.layout.grid.rows.size ≤ c.layout.row := by
    refine Grid.size_fill_le (Nat.zero_le _) fun p hp => ?_
    obtain ⟨x, hx, rfl⟩ := (h.depicts.placements p).mp hp
    exact (h.strand.block.inside x hx).2.2.2
  omega

theorem touches_leadIn (h : c.Traced ws n) : Touches ws c.leadInPort 0 := h.strand.entry

theorem touches_leadOut (h : c.Traced ws n) : Touches ws c.leadOutPort 1 := by
  obtain ⟨row, hrow, hexit⟩ := h.strand.exit
  have hlast : c.layout.grid.rows.size - 1 = row := by
    rw [h.size_eq]
    omega
  rw [leadOutPort, hlast]
  exact hexit

/-- A port faces another one, or it is a terminal of the supply. -/
theorem faces_or (h : c.Traced ws n) (hp : Touches ws p j) :
    (∃ q, p.Faces q ∧ Touches ws q j) ∨ p = c.leadInPort ∨ p = c.leadOutPort := by
  obtain ⟨row, column, side⟩ := p
  rcases h.strand.block.faces _ j hp with hfaces | ⟨hside, hrow, hcolumn, -⟩ |
    ⟨hside, hrow, hcolumn, -⟩
  · exact .inl hfaces
  · cases hside
    cases hrow
    cases List.mem_singleton.mp hcolumn
    exact .inr (.inl rfl)
  · cases hside
    cases List.mem_singleton.mp hcolumn
    have hlast : c.layout.grid.rows.size - 1 = row := by
      rw [h.size_eq, ← hrow]
      rfl
    rw [leadOutPort, hlast]
    exact .inr (.inr rfl)

/-- **Every port faces another one**, but for the terminals of the supply. -/
theorem faces_iff (h : c.Traced ws n) (hp : c.layout.grid.HasPort p) :
    (∃ q, p.Faces q ∧ c.layout.grid.HasPort q) ↔ p ≠ c.leadInPort ∧ p ≠ c.leadOutPort := by
  constructor
  · intro hq
    obtain ⟨q, faces, hq⟩ := hq
    refine ⟨fun hin => ?_, fun hout => ?_⟩
    · exact (not_faces_of_row_lt hq.row_lt).1 (hin ▸ faces)
    · exact (not_faces_of_row_lt hq.row_lt).2 (hout ▸ faces)
  · intro hne
    obtain ⟨j, hp⟩ := h.hasPort_iff.mp hp
    rcases h.faces_or hp with ⟨q, faces, hq⟩ | hin | hout
    · exact ⟨q, faces, h.shows.hasPort hq⟩
    · exact absurd hin hne.1
    · exact absurd hout hne.2

/-! ## Paths of wire -/

/-- **A step stays at the junction.** -/
theorem linked (h : c.Traced ws n) (hlink : c.layout.grid.Linked p q) (hp : Touches ws p j) :
    Touches ws q j := by
  cases hlink with
  | border _ hq faces =>
    rcases h.faces_or hp with ⟨q', faces', hq'⟩ | rfl | rfl
    · rw [faces.unique faces']
      exact hq'
    · exact absurd faces (not_faces_of_row_lt hq.row_lt).1
    · exact absurd faces (not_faces_of_row_lt hq.row_lt).2
  | @through row column side side' _ hq hcell =>
    obtain ⟨k, y, hy, yrow, ycolumn, yport, rfl⟩ := h.hasPort_iff.mp hq
    obtain ⟨x, hx, xrow, xcolumn, -, rfl⟩ := hp
    have hxy : x = y := h.strand.block.distinct x hx y hy (xrow.trans yrow.symm)
      (xcolumn.trans ycolumn.symm)
    subst hxy
    refine ⟨x, hx, yrow, ycolumn, yport, ?_⟩
    -- all wires of a cell that is not a resistor are at one junction
    have xcell := h.shows x hx
    rw [show x.row = row from xrow, show x.column = column from xcolumn] at xcell
    rw [xcell] at hcell
    have conducts := h.strand.block.conducts x hx hcell
    cases side <;> cases side' <;> simp [Contact.junction, conducts]

/-- **A path stays at the junction.** -/
theorem joined (h : c.Traced ws n) (hjoined : c.layout.grid.Joined p q) (hp : Touches ws p j) :
    Touches ws q j := by
  induction hjoined with
  | refl => exact hp
  | tail _ hlink ih => exact h.linked hlink ih

/-- **Ports are joined exactly when they are at one junction.** -/
theorem joined_iff (h : c.Traced ws n) (hp : c.layout.grid.HasPort p) :
    c.layout.grid.Joined p q ↔ ∃ j, Touches ws p j ∧ Touches ws q j := by
  constructor
  · intro hjoined
    obtain ⟨j, hp⟩ := h.hasPort_iff.mp hp
    exact ⟨j, hp, h.joined hjoined hp⟩
  · intro hj
    obtain ⟨j, hp, hq⟩ := hj
    exact h.strand.connected _ h.shows p q j hp hq

end Chain.Traced

/-! ## Terminals -/

/-- A terminal of a network is drawn at a port of its grid. -/
inductive Chain.Shows (c : Chain R) : Terminal → Port → Prop
  | leadIn : Shows c .leadIn c.leadInPort
  | leadOut : Shows c .leadOut c.leadOutPort
  | top {l : String} {row column : Nat} : c.layout.grid.cell row column = .resistor l →
    Shows c (.top l) ⟨row, column, .up⟩
  | bottom {l : String} {row column : Nat} : c.layout.grid.cell row column = .resistor l →
    Shows c (.bottom l) ⟨row, column, .down⟩

namespace Chain.Traced

variable {c : Chain R} {ws : Set Contact} {n : Nat} {p : Port} {j : Nat} {t : Terminal}
  {l : String}

theorem exists_resistor (h : c.Traced ws n) {row column : Nat}
    (hcell : c.layout.grid.cell row column = .resistor l) :
    ∃ x ∈ ws, x.row = row ∧ x.column = column ∧ x.cell = .resistor l := by
  obtain ⟨x, hx, rfl, rfl⟩ := h.only row column (by rw [hcell]; exact Cell.noConfusion)
  exact ⟨x, hx, rfl, rfl, by rw [← h.shows x hx, hcell]⟩

theorem mem_resistorLabels_iff (h : c.Traced ws n) :
    l ∈ c.resistorLabels ↔ ∃ x ∈ ws, x.cell = .resistor l := by
  rw [← c.resistors_layout, List.mem_filterMap]
  constructor
  · intro hl
    obtain ⟨p, hp, hl⟩ := hl
    obtain ⟨x, hx, rfl⟩ := (h.depicts.placements p).mp hp
    exact ⟨x, hx, Placement.resistor?_eq_some.mp hl⟩
  · intro hl
    obtain ⟨x, hx, hl⟩ := hl
    exact ⟨x.toPlacement, (h.depicts.placements _).mpr ⟨x, hx, rfl⟩,
      Placement.resistor?_eq_some.mpr hl⟩

/-- One resistor has a label. -/
theorem resistor_unique (h : c.Traced ws n) (labels : c.resistorLabels.Nodup) {x y : Contact}
    (hx : x ∈ ws) (hy : y ∈ ws) (xcell : x.cell = .resistor l) (ycell : y.cell = .resistor l) :
    x = y := by
  rw [← c.resistors_layout] at labels
  have hxy : x.toPlacement = y.toPlacement :=
    eq_of_resistor?_eq labels ((h.depicts.placements _).mpr ⟨x, hx, rfl⟩)
      ((h.depicts.placements _).mpr ⟨y, hy, rfl⟩) (Placement.resistor?_eq_some.mpr xcell)
      (Placement.resistor?_eq_some.mpr ycell)
  exact h.strand.block.distinct x hx y hy (congrArg Placement.row hxy)
    (congrArg Placement.column hxy)

/-- An edge of the netlist is the resistor of its label. -/
theorem edge_iff (h : c.Traced ws n) (labels : c.resistorLabels.Nodup) {x : Contact}
    (hx : x ∈ ws) (xcell : x.cell = .resistor l) {e : Edge} :
    e ∈ c.edges ∧ e.label = l ↔ e = ⟨l, x.upper, x.lower⟩ := by
  constructor
  · intro he
    obtain ⟨he, rfl⟩ := he
    obtain ⟨y, hy, ycell, hupper, hlower⟩ := (h.depicts.edges e).mp he
    rw [h.resistor_unique labels hx hy xcell ycell, hupper, hlower]
  · intro he
    subst he
    exact ⟨(h.depicts.edges _).mpr ⟨x, hx, xcell, rfl, rfl⟩, rfl⟩

/-- **A port where a terminal is drawn is at the junction of the terminal.** -/
theorem touches_iff_meets (h : c.Traced ws n) (labels : c.resistorLabels.Nodup)
    (hshow : c.Shows t p) : Touches ws p j ↔ c.Meets t j := by
  cases hshow with
  | leadIn =>
    rw [h.strand.block.touches_iff_eq h.touches_leadIn]
    constructor
    · rintro rfl
      exact .leadIn
    · intro hm
      cases hm
      rfl
  | leadOut =>
    rw [h.strand.block.touches_iff_eq h.touches_leadOut]
    constructor
    · rintro rfl
      exact .leadOut
    · intro hm
      cases hm
      rfl
  | top hcell =>
    obtain ⟨x, hx, rfl, rfl, xcell⟩ := h.exists_resistor hcell
    have touches : Touches ws ⟨x.row, x.column, .up⟩ x.upper :=
      ⟨x, hx, rfl, rfl, by rw [xcell]; rfl, rfl⟩
    rw [h.strand.block.touches_iff_eq touches]
    constructor
    · rintro rfl
      exact .top ((h.edge_iff labels hx xcell).mpr rfl).1
    · intro hm
      cases hm with
      | top he => rw [(h.edge_iff labels hx xcell).mp ⟨he, rfl⟩]
  | bottom hcell =>
    obtain ⟨x, hx, rfl, rfl, xcell⟩ := h.exists_resistor hcell
    have touches : Touches ws ⟨x.row, x.column, .down⟩ x.lower :=
      ⟨x, hx, rfl, rfl, by rw [xcell]; rfl, rfl⟩
    rw [h.strand.block.touches_iff_eq touches]
    constructor
    · rintro rfl
      exact .bottom ((h.edge_iff labels hx xcell).mpr rfl).1
    · intro hm
      cases hm with
      | bottom he => rw [(h.edge_iff labels hx xcell).mp ⟨he, rfl⟩]

theorem hasPort_of_shows (h : c.Traced ws n) (hshow : c.Shows t p) : c.layout.grid.HasPort p := by
  cases hshow with
  | leadIn => exact h.shows.hasPort h.touches_leadIn
  | leadOut => exact h.shows.hasPort h.touches_leadOut
  | top hcell =>
    show (c.layout.grid.cell _ _).hasPort .up
    rw [hcell]
    rfl
  | bottom hcell =>
    show (c.layout.grid.cell _ _).hasPort .down
    rw [hcell]
    rfl

/-- **Terminals are joined exactly when they are one junction.** -/
theorem joined_iff_sameJunction (h : c.Traced ws n) (labels : c.resistorLabels.Nodup)
    {t' : Terminal} {p' : Port} (hshow : c.Shows t p) (hshow' : c.Shows t' p') :
    c.layout.grid.Joined p p' ↔ c.SameJunction t t' := by
  rw [h.joined_iff (h.hasPort_of_shows hshow)]
  constructor
  · intro hj
    obtain ⟨j, hp, hp'⟩ := hj
    exact ⟨j, (h.touches_iff_meets labels hshow).mp hp, (h.touches_iff_meets labels hshow').mp hp'⟩
  · intro hj
    obtain ⟨j, hm, hm'⟩ := hj
    exact ⟨j, (h.touches_iff_meets labels hshow).mpr hm,
      (h.touches_iff_meets labels hshow').mpr hm'⟩

end Chain.Traced

/-! ## The drawing is the circuit -/

/-- **The drawing is the circuit.** In the grid of a canonical network without
empty groups, whose resistors have distinct labels: the ports that face no port
of a neighbour are the top of the lead-in and the bottom of the lead-out; every
resistor is in exactly one cell, and no other cell is a resistor; and terminals
are joined by a path of wire that passes through no resistor exactly when they
are the same junction of the network. -/
theorem layout_draws_network (c : Chain R) (canonical : c.isCanonical)
    (nonempty : c.NoEmptyGroup) (labels : c.resistorLabels.Nodup) :
    (∀ p, c.layout.grid.HasPort p →
      ((∃ q, p.Faces q ∧ c.layout.grid.HasPort q) ↔ p ≠ c.leadInPort ∧ p ≠ c.leadOutPort)) ∧
    (c.layout.grid.HasPort c.leadInPort ∧ c.layout.grid.HasPort c.leadOutPort) ∧
    (∀ l ∈ c.resistorLabels, ∃ row column, c.layout.grid.cell row column = .resistor l ∧
      ∀ row' column', c.layout.grid.cell row' column' = .resistor l →
        row' = row ∧ column' = column) ∧
    (∀ l row column, c.layout.grid.cell row column = .resistor l → l ∈ c.resistorLabels) ∧
    (∀ t t' p p', c.Shows t p → c.Shows t' p' →
      (c.layout.grid.Joined p p' ↔ c.SameJunction t t')) := by
  obtain ⟨ws, n, traced⟩ := Chain.exists_traced (c.branching_of_isCanonical canonical nonempty)
  refine ⟨fun p hp => traced.faces_iff hp, ⟨?_, ?_⟩, fun l hl => ?_,
    fun l row column hcell => ?_, fun t t' p p' ht ht' => ?_⟩
  · exact traced.shows.hasPort traced.touches_leadIn
  · exact traced.shows.hasPort traced.touches_leadOut
  · obtain ⟨x, hx, xcell⟩ := traced.mem_resistorLabels_iff.mp hl
    refine ⟨x.row, x.column, by rw [traced.shows x hx, xcell], fun row column hcell => ?_⟩
    obtain ⟨y, hy, rfl, rfl, ycell⟩ := traced.exists_resistor hcell
    rw [traced.resistor_unique labels hx hy xcell ycell]
    exact ⟨rfl, rfl⟩
  · obtain ⟨x, hx, -, -, xcell⟩ := traced.exists_resistor hcell
    exact traced.mem_resistorLabels_iff.mpr ⟨x, hx, xcell⟩
  · exact traced.joined_iff_sameJunction labels ht ht'

/-- A group within a branch: the inner group starts where its branch does. -/
def groupInBranch : Chain Nat :=
  .last (.group "A" .blank [.last (.resistor "B" .blank 1),
    .link (.group "C" .blank [.last (.resistor "D" .blank 1), .last (.resistor "E" .blank 1)])
      (.last (.resistor "F" .blank 1))])

/-- The top of B is at the lead-in, and the bottom of B is not at that of D. -/
theorem layout_draws_network_groupInBranch :
    (groupInBranch.isCanonical ∧ groupInBranch.NoEmptyGroup ∧
      groupInBranch.resistorLabels.Nodup) ∧
    groupInBranch.layout.grid.Joined groupInBranch.leadInPort ⟨2, 0, .up⟩ ∧
    ¬groupInBranch.layout.grid.Joined ⟨2, 0, .down⟩ ⟨3, 1, .down⟩ := by
  have canonical : groupInBranch.isCanonical := by
    simp [Chain.isCanonical, Chain.preOrder_eq_nodes, groupInBranch, Chain.nodes, Element.nodes,
      branchNodes, Chain.head, Element.isSettled, Chain.isLoneGroup]
  have nonempty : groupInBranch.NoEmptyGroup := by
    intro e he
    simp only [groupInBranch, Chain.components_group, Chain.components_resistor,
      Chain.components_link, List.flatMap_cons, List.flatMap_nil, List.mem_cons, List.mem_append,
      List.not_mem_nil, or_false] at he
    rcases he with rfl | rfl | (rfl | rfl | rfl) | rfl <;>
      simp [Element.branches, Element.isResistor]
  have labels : groupInBranch.resistorLabels.Nodup := by
    simp [groupInBranch, Chain.resistorLabels_group, Chain.resistorLabels_resistor,
      Chain.resistorLabels_link]
  have joined_iff := (layout_draws_network groupInBranch canonical nonempty labels).2.2.2.2
  have topB : groupInBranch.Shows (.top "B") ⟨2, 0, .up⟩ := .top (by decide +kernel)
  have bottomB : groupInBranch.Shows (.bottom "B") ⟨2, 0, .down⟩ := .bottom (by decide +kernel)
  have bottomD : groupInBranch.Shows (.bottom "D") ⟨3, 1, .down⟩ := .bottom (by decide +kernel)
  refine ⟨⟨canonical, nonempty, labels⟩, ?_, fun hjoined => ?_⟩
  · exact (joined_iff _ _ _ _ .leadIn topB).mpr ⟨0, .leadIn, Chain.meets_top_iff.mpr (by decide)⟩
  · obtain ⟨j, hB, hD⟩ := (joined_iff _ _ _ _ bottomB bottomD).mp hjoined
    obtain ⟨e, he, hlabel, rfl⟩ := Chain.meets_bottom_iff.mp hB
    obtain ⟨f, hf, hlabel', hef⟩ := Chain.meets_bottom_iff.mp hD
    have apart : ∀ e ∈ groupInBranch.edges, ∀ f ∈ groupInBranch.edges,
        e.label = "B" → f.label = "D" → f.lower ≠ e.lower := by decide
    exact apart e he f hf hlabel hlabel' hef

end SeriesParallel
