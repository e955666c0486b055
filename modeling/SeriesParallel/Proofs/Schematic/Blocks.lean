import Mathlib.Data.Set.Basic
import SeriesParallel.Proofs.Schematic.Ports
import SeriesParallel.Schematic.Layout

/-!
# Schematic — blocks of wired cells

What a part of a drawing connects is said with **contacts**: placed cells that
carry the junctions their wires are at. Contacts fill a block of rows and
columns. A block is open only at its entries at the top and at its exits at the
bottom, and blocks compose: one below the other where exits meet entries, or
one beside the other.

All ports at one junction are **connected** when every grid that shows the
contacts joins them. Two connected sets of contacts make one when each junction
they share has a place where they face each other.
-/

namespace SeriesParallel

/-! ## Contacts -/

/-- A placed cell with the junctions of the wires at its top and at its bottom.
Wires at the sides are at the junction of the top. -/
structure Contact extends Placement where
  upper : Nat
  lower : Nat

/-- The junction of the wire at a side of a cell. -/
def Contact.junction (x : Contact) : Side → Nat
  | .down => x.lower
  | _ => x.upper

/-- A wire of some contact ends at a port, at a junction. -/
def Touches (ws : Set Contact) (p : Port) (j : Nat) : Prop :=
  ∃ x ∈ ws, x.row = p.row ∧ x.column = p.column ∧ x.cell.hasPort p.side ∧ x.junction p.side = j

theorem touches_union {ws ws' : Set Contact} {p : Port} {j : Nat} :
    Touches (ws ∪ ws') p j ↔ Touches ws p j ∨ Touches ws' p j := by
  constructor
  · intro h
    obtain ⟨x, hx | hx, hport⟩ := h
    · exact .inl ⟨x, hx, hport⟩
    · exact .inr ⟨x, hx, hport⟩
  · intro h
    rcases h with ⟨x, hx, hport⟩ | ⟨x, hx, hport⟩
    · exact ⟨x, .inl hx, hport⟩
    · exact ⟨x, .inr hx, hport⟩

/-! ## Blocks -/

/-- Contacts fill a block of columns from `left` to `right` and of rows from
`top` to `bottom`, both ends excluded. Every port faces another one at its
junction, except the tops of the columns `ins`, which are at junction `i`, and
the bottoms of the columns `outs`, at junction `o`. -/
structure Block (ws : Set Contact) (left right top bottom : Nat)
    (ins : List Nat) (i : Nat) (outs : List Nat) (o : Nat) : Prop where
  inside : ∀ x ∈ ws, left ≤ x.column ∧ x.column < right ∧ top ≤ x.row ∧ x.row < bottom
  distinct : ∀ x ∈ ws, ∀ y ∈ ws, x.row = y.row → x.column = y.column → x = y
  conducts : ∀ x ∈ ws, x.cell.isResistor = false → x.upper = x.lower
  faces : ∀ p j, Touches ws p j →
    (∃ q, p.Faces q ∧ Touches ws q j) ∨
    (p.side = .up ∧ p.row = top ∧ p.column ∈ ins ∧ j = i) ∨
    (p.side = .down ∧ p.row + 1 = bottom ∧ p.column ∈ outs ∧ j = o)
  entry : ∀ c ∈ ins, Touches ws ⟨top, c, .up⟩ i
  exit : ∀ c ∈ outs, ∃ row, row + 1 = bottom ∧ Touches ws ⟨row, c, .down⟩ o

namespace Block

variable {ws ws' : Set Contact} {left middle right top bottom i o j : Nat}
  {ins ins' outs outs' : List Nat}

/-- A block of no columns. -/
theorem empty (left right top bottom i o : Nat) : Block ∅ left right top bottom [] i [] o where
  inside := fun x hx => hx.elim
  distinct := fun x hx => hx.elim
  conducts := fun x hx => hx.elim
  faces := by
    intro p j h
    obtain ⟨x, hx, -⟩ := h
    exact hx.elim
  entry := fun c hc => absurd hc List.not_mem_nil
  exit := fun c hc => absurd hc List.not_mem_nil

theorem widen {left' right' : Nat} (h : Block ws left right top bottom ins i outs o)
    (hleft : left' ≤ left) (hright : right ≤ right') :
    Block ws left' right' top bottom ins i outs o where
  inside := by
    intro x hx
    have := h.inside x hx
    omega
  distinct := h.distinct
  conducts := h.conducts
  faces := h.faces
  entry := h.entry
  exit := h.exit

/-- Contacts in blocks that share no place are distinct. -/
theorem distinct_union {left' right' top' bottom' i' o' : Nat}
    (h : Block ws left right top bottom ins i outs o)
    (h' : Block ws' left' right' top' bottom' ins' i' outs' o')
    (apart : right ≤ left' ∨ bottom ≤ top') :
    ∀ x ∈ ws ∪ ws', ∀ y ∈ ws ∪ ws', x.row = y.row → x.column = y.column → x = y := by
  intro x hx y hy hrow hcolumn
  rcases hx with hx | hx
  · rcases hy with hy | hy
    · exact h.distinct x hx y hy hrow hcolumn
    · -- a place cannot be in both blocks
      have := h.inside x hx
      have := h'.inside y hy
      omega
  · rcases hy with hy | hy
    · have := h'.inside x hx
      have := h.inside y hy
      omega
    · exact h'.distinct x hx y hy hrow hcolumn

theorem conducts_union {left' right' top' bottom' i' o' : Nat}
    (h : Block ws left right top bottom ins i outs o)
    (h' : Block ws' left' right' top' bottom' ins' i' outs' o') :
    ∀ x ∈ ws ∪ ws', x.cell.isResistor = false → x.upper = x.lower := by
  intro x hx
  rcases hx with hx | hx
  · exact h.conducts x hx
  · exact h'.conducts x hx

/-- **Blocks compose downwards**: the exits of the upper one are the entries of
the lower one. -/
theorem below (h : Block ws left right top middle ins i outs j)
    (h' : Block ws' left right middle bottom outs j outs' o)
    (htop : top ≤ middle) (hbottom : middle ≤ bottom) :
    Block (ws ∪ ws') left right top bottom ins i outs' o where
  inside := by
    intro x hx
    rcases hx with hx | hx
    · have := h.inside x hx
      omega
    · have := h'.inside x hx
      omega
  distinct := h.distinct_union h' (.inr (Nat.le_refl _))
  conducts := h.conducts_union h'
  faces := by
    intro p k hp
    rcases touches_union.mp hp with hp | hp
    · rcases h.faces p k hp with ⟨q, hpq, hq⟩ | hentry | ⟨hside, hrow, hcolumn, rfl⟩
      · exact .inl ⟨q, hpq, touches_union.mpr (.inl hq)⟩
      · exact .inr (.inl hentry)
      · -- an exit of the upper block faces an entry of the lower one
        obtain ⟨row, column, side⟩ := p
        cases hside
        cases hrow
        have hq := h'.entry column hcolumn
        exact .inl ⟨_, Port.faces_below row column, touches_union.mpr (.inr hq)⟩
    · rcases h'.faces p k hp with ⟨q, hpq, hq⟩ | ⟨hside, hrow, hcolumn, rfl⟩ | hexit
      · exact .inl ⟨q, hpq, touches_union.mpr (.inr hq)⟩
      · obtain ⟨row, column, side⟩ := p
        cases hside
        cases hrow
        obtain ⟨row', rfl, hq⟩ := h.exit column hcolumn
        exact .inl ⟨_, (Port.faces_below row' column).symm, touches_union.mpr (.inl hq)⟩
      · exact .inr (.inr hexit)
  entry := fun c hc => touches_union.mpr (.inl (h.entry c hc))
  exit := by
    intro c hc
    obtain ⟨row, hrow, hq⟩ := h'.exit c hc
    exact ⟨row, hrow, touches_union.mpr (.inr hq)⟩

/-- **Blocks compose sideways.** -/
theorem beside (h : Block ws left middle top bottom ins i outs o)
    (h' : Block ws' middle right top bottom ins' i outs' o)
    (hleft : left ≤ middle) (hright : middle ≤ right) :
    Block (ws ∪ ws') left right top bottom (ins ++ ins') i (outs ++ outs') o where
  inside := by
    intro x hx
    rcases hx with hx | hx
    · have := h.inside x hx
      omega
    · have := h'.inside x hx
      omega
  distinct := h.distinct_union h' (.inl (Nat.le_refl _))
  conducts := h.conducts_union h'
  faces := by
    intro p k hp
    rcases touches_union.mp hp with hp | hp
    · rcases h.faces p k hp with ⟨q, hpq, hq⟩ | ⟨hside, hrow, hcolumn, hk⟩ |
        ⟨hside, hrow, hcolumn, hk⟩
      · exact .inl ⟨q, hpq, touches_union.mpr (.inl hq)⟩
      · exact .inr (.inl ⟨hside, hrow, List.mem_append_left _ hcolumn, hk⟩)
      · exact .inr (.inr ⟨hside, hrow, List.mem_append_left _ hcolumn, hk⟩)
    · rcases h'.faces p k hp with ⟨q, hpq, hq⟩ | ⟨hside, hrow, hcolumn, hk⟩ |
        ⟨hside, hrow, hcolumn, hk⟩
      · exact .inl ⟨q, hpq, touches_union.mpr (.inr hq)⟩
      · exact .inr (.inl ⟨hside, hrow, List.mem_append_right _ hcolumn, hk⟩)
      · exact .inr (.inr ⟨hside, hrow, List.mem_append_right _ hcolumn, hk⟩)
  entry := by
    intro c hc
    rcases List.mem_append.mp hc with hc | hc
    · exact touches_union.mpr (.inl (h.entry c hc))
    · exact touches_union.mpr (.inr (h'.entry c hc))
  exit := by
    intro c hc
    rcases List.mem_append.mp hc with hc | hc
    · obtain ⟨row, hrow, hq⟩ := h.exit c hc
      exact ⟨row, hrow, touches_union.mpr (.inl hq)⟩
    · obtain ⟨row, hrow, hq⟩ := h'.exit c hc
      exact ⟨row, hrow, touches_union.mpr (.inr hq)⟩

/-- A port is at one junction. -/
theorem touches_iff_eq (h : Block ws left right top bottom ins i outs o) {p : Port} {k : Nat}
    (hk : Touches ws p k) : Touches ws p j ↔ j = k := by
  constructor
  · intro hj
    obtain ⟨x, hx, xrow, xcolumn, -, rfl⟩ := hj
    obtain ⟨y, hy, yrow, ycolumn, -, rfl⟩ := hk
    have hxy : x = y := h.distinct x hx y hy (by omega) (by omega)
    rw [hxy]
  · rintro rfl
    exact hk

end Block

/-! ## Connected contacts -/

/-- A grid shows contacts when their cells are at their places. -/
def Grid.Shows (g : Grid) (ws : Set Contact) : Prop :=
  ∀ x ∈ ws, g.cell x.row x.column = x.cell

theorem Grid.Shows.left {g : Grid} {ws ws' : Set Contact} (h : g.Shows (ws ∪ ws')) :
    g.Shows ws := fun x hx => h x (.inl hx)

theorem Grid.Shows.right {g : Grid} {ws ws' : Set Contact} (h : g.Shows (ws ∪ ws')) :
    g.Shows ws' := fun x hx => h x (.inr hx)

theorem Grid.Shows.hasPort {g : Grid} {ws : Set Contact} {p : Port} {j : Nat} (h : g.Shows ws)
    (hp : Touches ws p j) : g.HasPort p := by
  obtain ⟨x, hx, hrow, hcolumn, hport, -⟩ := hp
  have hcell := h x hx
  rw [hrow, hcolumn] at hcell
  rw [Grid.HasPort, hcell]
  exact hport

/-- Every grid that shows the contacts joins all ports at one junction. -/
def Connected (ws : Set Contact) : Prop :=
  ∀ g : Grid, g.Shows ws → ∀ p q j, Touches ws p j → Touches ws q j → g.Joined p q

namespace Connected

/-- **Connected contacts stay connected together** when they face each other at
every junction they share. -/
theorem union {ws ws' : Set Contact} (h : Connected ws) (h' : Connected ws')
    (shared : ∀ p q j, Touches ws p j → Touches ws' q j →
      ∃ p' q', p'.Faces q' ∧ Touches ws p' j ∧ Touches ws' q' j) : Connected (ws ∪ ws') := by
  intro g hg
  -- from one side to the place they share, over the border, and on
  have across (p q : Port) (j : Nat) (hp : Touches ws p j) (hq : Touches ws' q j) :
      g.Joined p q := by
    obtain ⟨p', q', hfaces, hp', hq'⟩ := shared p q j hp hq
    have border : g.Joined p' q' :=
      (Grid.Linked.border (hg.left.hasPort hp') (hg.right.hasPort hq') hfaces).joined
    exact (h g hg.left p p' j hp hp').trans (border.trans (h' g hg.right q' q j hq' hq))
  intro p q j hp hq
  rcases touches_union.mp hp with hp | hp
  · rcases touches_union.mp hq with hq | hq
    · exact h g hg.left p q j hp hq
    · exact across p q j hp hq
  · rcases touches_union.mp hq with hq | hq
    · exact (across q p j hq hp).symm
    · exact h' g hg.right p q j hp hq

end Connected

end SeriesParallel
