import SeriesParallel.Proofs.Network.Netlist
import SeriesParallel.Proofs.Schematic.Blocks

/-!
# Schematic — strands

A **strand** draws a network between two junctions: a connected block with one
entry and one exit, in the same column. Strands compose in series, and wires
make a strand longer.
-/

namespace SeriesParallel

/-! ## What contacts stand for -/

/-- Contacts are those of some placements, and their resistors are those of a
netlist. -/
structure Depicts (ws : Set Contact) (ps : List Placement) (es : List Edge) : Prop where
  placements : ∀ p, p ∈ ps ↔ ∃ x ∈ ws, x.toPlacement = p
  edges : ∀ e, e ∈ es ↔
    ∃ x ∈ ws, x.cell = .resistor e.label ∧ x.upper = e.upper ∧ x.lower = e.lower

namespace Depicts

variable {ws ws' : Set Contact} {ps ps' : List Placement} {es es' : List Edge}

theorem empty : Depicts ∅ [] [] where
  placements := by
    intro p
    simp
  edges := by
    intro e
    simp

theorem union (h : Depicts ws ps es) (h' : Depicts ws' ps' es') :
    Depicts (ws ∪ ws') (ps ++ ps') (es ++ es') where
  placements := by
    intro p
    rw [List.mem_append, h.placements, h'.placements]
    simp only [Set.mem_union, or_and_right, exists_or]
  edges := by
    intro e
    rw [List.mem_append, h.edges, h'.edges]
    simp only [Set.mem_union, or_and_right, exists_or]

/-- The order of placements does not matter. -/
theorem perm (h : Depicts ws ps es) (hps : ps.Perm ps') : Depicts ws ps' es where
  placements := by
    intro p
    rw [← hps.mem_iff]
    exact h.placements p
  edges := h.edges

end Depicts

/-! ## Wires at one junction -/

/-- Placements whose wires are all at one junction. -/
def level (ps : List Placement) (j : Nat) : Set Contact :=
  {x | x.toPlacement ∈ ps ∧ x.upper = j ∧ x.lower = j}

theorem level_append (ps qs : List Placement) (j : Nat) :
    level (ps ++ qs) j = level ps j ∪ level qs j := by
  ext x
  show x.toPlacement ∈ ps ++ qs ∧ _ ↔ _ ∧ _ ∨ _ ∧ _
  rw [List.mem_append, or_and_right]

theorem touches_level {ps : List Placement} {j k : Nat} {p : Port} :
    Touches (level ps j) p k ↔
      k = j ∧ ∃ x ∈ ps, x.row = p.row ∧ x.column = p.column ∧ x.cell.hasPort p.side := by
  constructor
  · intro h
    obtain ⟨x, ⟨hx, hupper, hlower⟩, hrow, hcolumn, hport, rfl⟩ := h
    refine ⟨?_, x.toPlacement, hx, hrow, hcolumn, hport⟩
    unfold Contact.junction
    split
    · exact hlower
    · exact hupper
  · intro h
    obtain ⟨rfl, x, hx, hrow, hcolumn, hport⟩ := h
    refine ⟨⟨x, k, k⟩, ⟨hx, rfl, rfl⟩, hrow, hcolumn, hport, ?_⟩
    unfold Contact.junction
    split <;> rfl

/-- Wires stand for themselves. -/
theorem depicts_level {ps : List Placement} (h : ∀ p ∈ ps, p.cell.isResistor = false) (j : Nat) :
    Depicts (level ps j) ps [] where
  placements := by
    intro p
    constructor
    · intro hp
      exact ⟨⟨p, j, j⟩, ⟨hp, rfl, rfl⟩, rfl⟩
    · intro hx
      obtain ⟨x, ⟨hx, -⟩, rfl⟩ := hx
      exact hx
  edges := by
    intro e
    refine ⟨fun he => absurd he List.not_mem_nil, fun hx => ?_⟩
    obtain ⟨x, ⟨hx, -⟩, hcell, -⟩ := hx
    have := h _ hx
    rw [hcell] at this
    simp [Cell.isResistor] at this

/-! ## Strands -/

/-- Contacts draw a network from junction `i` down to junction `o`, with its
own junctions among the numbers from `n` to `n'`. -/
structure Strand (ws : Set Contact) (left right top bottom column i o n n' : Nat) : Prop where
  block : Block ws left right top bottom [column] i [column] o
  top_lt : top < bottom
  connected : Connected ws
  junctions : ∀ p j, Touches ws p j → j = i ∨ j = o ∨ n ≤ j ∧ j < n'

namespace Strand

variable {ws ws' : Set Contact} {left right top middle bottom column i o n n' : Nat}

theorem entry (h : Strand ws left right top bottom column i o n n') :
    Touches ws ⟨top, column, .up⟩ i := h.block.entry column (List.mem_singleton.mpr rfl)

theorem exit (h : Strand ws left right top bottom column i o n n') :
    ∃ row, row + 1 = bottom ∧ Touches ws ⟨row, column, .down⟩ o :=
  h.block.exit column (List.mem_singleton.mpr rfl)

/-- The wire of a strand is in its block. -/
theorem column_inside (h : Strand ws left right top bottom column i o n n') :
    left ≤ column ∧ column < right := by
  obtain ⟨x, hx, -, hcolumn, -⟩ := h.entry
  have hcolumn : x.column = column := hcolumn
  have := h.block.inside x hx
  omega

theorem widen {left' right' : Nat} (h : Strand ws left right top bottom column i o n n')
    (hleft : left' ≤ left) (hright : right ≤ right') :
    Strand ws left' right' top bottom column i o n n' where
  block := h.block.widen hleft hright
  top_lt := h.top_lt
  connected := h.connected
  junctions := h.junctions

/-- **Strands compose in series**: the junction between them is new. -/
theorem below {m k : Nat} (h : Strand ws left right top middle column i m (m + 1) k)
    (h' : Strand ws' left right middle bottom column m o k n')
    (hi : i < m) (ho : o < m) (hio : i ≠ o) (hk : m < k) (hn : k ≤ n') :
    Strand (ws ∪ ws') left right top bottom column i o m n' where
  block := h.block.below h'.block (Nat.le_of_lt h.top_lt) (Nat.le_of_lt h'.top_lt)
  top_lt := Nat.lt_trans h.top_lt h'.top_lt
  connected := by
    refine h.connected.union h'.connected fun p q j hp hq => ?_
    -- nothing but the junction between them is shared
    have hj : j = m := by
      have := h.junctions p j hp
      have := h'.junctions q j hq
      omega
    subst hj
    obtain ⟨row, rfl, hexit⟩ := h.exit
    exact ⟨_, _, Port.faces_below row column, hexit, h'.entry⟩
  junctions := by
    intro p j hp
    rcases touches_union.mp hp with hp | hp
    · have := h.junctions p j hp
      omega
    · have := h'.junctions p j hp
      omega

end Strand

/-! ## Single cells -/

section

variable {left right n : Nat} {x : Contact}

theorem touches_singleton {p : Port} {j : Nat} :
    Touches {x} p j ↔
      ∃ side, p = ⟨x.row, x.column, side⟩ ∧ x.cell.hasPort side ∧ x.junction side = j := by
  constructor
  · intro hp
    obtain ⟨y, hy, hrow, hcolumn, hport, hj⟩ := hp
    cases hy
    obtain ⟨row, column, side⟩ := p
    cases hrow
    cases hcolumn
    exact ⟨side, rfl, hport, hj⟩
  · intro hp
    obtain ⟨side, rfl, hport, hj⟩ := hp
    exact ⟨x, rfl, rfl, rfl, hport, hj⟩

theorem junctions_singleton {p : Port} {j : Nat} (hp : Touches {x} p j) :
    j = x.upper ∨ j = x.lower := by
  obtain ⟨side, -, -, rfl⟩ := touches_singleton.mp hp
  cases side with
  | down => exact .inr rfl
  | up => exact .inl rfl
  | left => exact .inl rfl
  | right => exact .inl rfl

/-- A cell with a port at its top and one at its bottom is a block. -/
theorem block_singleton (hport : ∀ side, x.cell.hasPort side ↔ side = .up ∨ side = .down)
    (hx : x.cell.isResistor = false → x.upper = x.lower)
    (hleft : left ≤ x.column) (hright : x.column < right) :
    Block {x} left right x.row (x.row + 1) [x.column] x.upper [x.column] x.lower where
  inside := by
    intro y hy
    cases hy
    omega
  distinct := by
    intro y hy z hz _ _
    cases hy
    cases hz
    rfl
  conducts := by
    intro y hy
    cases hy
    exact hx
  faces := by
    intro p j hp
    obtain ⟨side, rfl, hside, rfl⟩ := touches_singleton.mp hp
    rcases (hport side).mp hside with rfl | rfl
    · exact .inr (.inl ⟨rfl, rfl, List.mem_singleton.mpr rfl, rfl⟩)
    · exact .inr (.inr ⟨rfl, rfl, List.mem_singleton.mpr rfl, rfl⟩)
  entry := by
    intro c hc
    cases List.mem_singleton.mp hc
    exact touches_singleton.mpr ⟨.up, rfl, (hport .up).mpr (.inl rfl), rfl⟩
  exit := by
    intro c hc
    cases List.mem_singleton.mp hc
    exact ⟨x.row, rfl, touches_singleton.mpr ⟨.down, rfl, (hport .down).mpr (.inr rfl), rfl⟩⟩

/-- A resistor is a strand between its two junctions. -/
theorem strand_resistor {row column i o : Nat} (l : String) (hio : i ≠ o)
    (hleft : left ≤ column) (hright : column < right) :
    Strand {⟨⟨row, column, .resistor l⟩, i, o⟩} left right row (row + 1) column i o n n where
  block := block_singleton (by simp [Cell.hasPort]) (by simp [Cell.isResistor]) hleft hright
  top_lt := Nat.lt_succ_self row
  connected := by
    intro g _ p q j hp hq
    obtain ⟨side, rfl, pport, pj⟩ := touches_singleton.mp hp
    obtain ⟨side', rfl, qport, qj⟩ := touches_singleton.mp hq
    -- the two ends are at different junctions, so the ports are the same
    have hside : side = side' := by
      cases side <;> cases side' <;> simp_all [Cell.hasPort, Contact.junction]
    rw [hside]
    exact .refl g _
  junctions := by
    intro p j hp
    rcases junctions_singleton hp with hj | hj
    · exact .inl hj
    · exact .inr (.inl hj)

theorem depicts_resistor (e : Edge) (row column : Nat) :
    Depicts {⟨⟨row, column, .resistor e.label⟩, e.upper, e.lower⟩}
      [⟨row, column, .resistor e.label⟩] [e] where
  placements := by
    intro p
    rw [List.mem_singleton]
    constructor
    · intro hp
      exact ⟨_, rfl, hp.symm⟩
    · intro hx
      obtain ⟨x, rfl, rfl⟩ := hx
      rfl
  edges := by
    intro e'
    rw [List.mem_singleton]
    constructor
    · intro he
      subst he
      exact ⟨_, rfl, rfl, rfl, rfl⟩
    · intro hx
      obtain ⟨x, rfl, hlabel, hupper, hlower⟩ := hx
      obtain ⟨l, i, o⟩ := e
      obtain ⟨l', i', o'⟩ := e'
      cases hlabel
      cases hupper
      cases hlower
      rfl

end

/-! ## Wires -/

/-- A wire cell, at one junction. -/
def wireAt (row column j : Nat) : Set Contact := {⟨⟨row, column, .wire⟩, j, j⟩}

section

variable {row column j k : Nat} {p : Port}

theorem block_wireAt {left right : Nat} (hleft : left ≤ column) (hright : column < right) :
    Block (wireAt row column j) left right row (row + 1) [column] j [column] j :=
  block_singleton (by simp [Cell.hasPort]) (fun _ => rfl) hleft hright

theorem junction_wireAt (hp : Touches (wireAt row column j) p k) : k = j := by
  rcases junctions_singleton hp with hk | hk <;> exact hk

/-- A wire cell joins its top and its bottom. -/
theorem connected_wireAt (row column j : Nat) : Connected (wireAt row column j) := by
  intro g hg p q k hp hq
  have hcell : g.cell row column = .wire := hg _ rfl
  have pport := hg.hasPort hp
  have qport := hg.hasPort hq
  obtain ⟨side, rfl, -⟩ := touches_singleton.mp hp
  obtain ⟨side', rfl, -⟩ := touches_singleton.mp hq
  exact (Grid.Linked.through pport qport (by rw [hcell]; rfl)).joined

theorem level_singleton (row column j : Nat) :
    level [⟨row, column, .wire⟩] j = wireAt row column j := by
  ext x
  obtain ⟨q, upper, lower⟩ := x
  show q ∈ [_] ∧ _ ∧ _ ↔ _ = _
  simp

theorem depicts_wireAt (row column j : Nat) :
    Depicts (wireAt row column j) [⟨row, column, .wire⟩] [] := by
  rw [← level_singleton]
  apply depicts_level
  intro p hp
  cases List.mem_singleton.mp hp
  rfl

theorem depicts_wires (column top bottom j : Nat) :
    Depicts (level (wires column top bottom) j) (wires column top bottom) [] := by
  apply depicts_level
  intro p hp
  obtain ⟨row, -, rfl⟩ := List.mem_map.mp hp
  rfl

end

theorem wires_self (column row : Nat) : wires column row row = [] := by
  rw [wires, Nat.sub_self]
  rfl

theorem wires_succ {column top bottom : Nat} (h : top ≤ bottom) :
    wires column top (bottom + 1) = wires column top bottom ++ [⟨bottom, column, .wire⟩] := by
  have hlen : bottom + 1 - top = bottom - top + 1 := by omega
  have hlast : top + (bottom - top) = bottom := by omega
  rw [wires, wires, hlen, List.range'_1_concat, List.map_append, hlast]
  rfl

/-! ## Strands with wires -/

namespace Strand

variable {ws : Set Contact} {left right top middle bottom column i o n n' : Nat}

/-- A wire leads to a strand. -/
theorem leadIn (h : Strand ws left right (top + 1) bottom column i o n n') :
    Strand (wireAt top column i ∪ ws) left right top bottom column i o n n' := by
  obtain ⟨hleft, hright⟩ := h.column_inside
  have wire : Block (wireAt top column i) left right top (top + 1) [column] i [column] i :=
    block_wireAt hleft hright
  refine ⟨wire.below h.block (Nat.le_succ _) (Nat.le_of_lt h.top_lt),
    Nat.lt_of_succ_lt h.top_lt, ?_, ?_⟩
  · refine (connected_wireAt top column i).union h.connected fun p q j hp hq => ?_
    cases junction_wireAt hp
    obtain ⟨row, hrow, hexit⟩ := wire.exit column (List.mem_singleton.mpr rfl)
    cases hrow
    exact ⟨_, _, Port.faces_below top column, hexit, h.entry⟩
  · intro p j hp
    rcases touches_union.mp hp with hp | hp
    · exact .inl (junction_wireAt hp)
    · exact h.junctions p j hp

/-- A wire leads on from a strand. -/
theorem leadOut (h : Strand ws left right top bottom column i o n n') :
    Strand (ws ∪ wireAt bottom column o) left right top (bottom + 1) column i o n n' := by
  obtain ⟨hleft, hright⟩ := h.column_inside
  have wire : Block (wireAt bottom column o) left right bottom (bottom + 1) [column] o [column] o :=
    block_wireAt hleft hright
  refine ⟨h.block.below wire (Nat.le_of_lt h.top_lt) (Nat.le_succ _),
    Nat.lt_succ_of_lt h.top_lt, ?_, ?_⟩
  · refine h.connected.union (connected_wireAt bottom column o) fun p q j hp hq => ?_
    cases junction_wireAt hq
    obtain ⟨row, rfl, hexit⟩ := h.exit
    exact ⟨_, _, Port.faces_below row column, hexit,
      wire.entry column (List.mem_singleton.mpr rfl)⟩
  · intro p j hp
    rcases touches_union.mp hp with hp | hp
    · exact h.junctions p j hp
    · exact .inr (.inl (junction_wireAt hp))

/-- **Wires make a strand longer**, down to any row. -/
theorem extend (h : Strand ws left right top middle column i o n n') (hbottom : middle ≤ bottom) :
    Strand (ws ∪ level (wires column middle bottom) o) left right top bottom column i o n n' := by
  induction bottom, hbottom using Nat.le_induction with
  | base =>
    have hlevel : level (wires column middle middle) o = ∅ := by
      rw [wires_self]
      ext x
      simp [level]
    rw [hlevel, Set.union_empty]
    exact h
  | succ bottom hbottom ih =>
    rw [wires_succ hbottom, level_append, level_singleton, ← Set.union_assoc]
    exact ih.leadOut

end Strand

end SeriesParallel
