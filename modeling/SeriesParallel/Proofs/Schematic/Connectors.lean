import SeriesParallel.Proofs.Schematic.Columns
import SeriesParallel.Proofs.Schematic.Strands

/-!
# Schematic — connector rows

A connector row is a wire from the first to the last branch of a group. It is
open at the junction with the chain on one side, and at the branches on the
other: a split has its entry at the junction, a merge has its exit there.
-/

namespace SeriesParallel

variable {kind : Connector} {mids : List Nat} {row centre first last j : Nat}

/-! ## The cells of a connector row -/

namespace Connector

/-- The cell of a connector row in a column. -/
def cellAt (kind : Connector) (centre first last : Nat) (mids : List Nat) (column : Nat) : Cell :=
  if column = centre then kind.cell ⟨first < centre, centre < last, mids.contains centre⟩
  else .rail (column != first) (column != last) (if mids.contains column then kind.tap else .none)

/-- The columns where a connector row is open at its top. -/
def ins (centre : Nat) (mids : List Nat) : Connector → List Nat
  | split => [centre]
  | merge => mids

/-- The columns where a connector row is open at its bottom. -/
def outs (centre : Nat) (mids : List Nat) : Connector → List Nat
  | split => mids
  | merge => [centre]

end Connector

theorem mem_connectorRow (h : Spreads mids centre first last) {p : Placement} :
    p ∈ connectorRow kind row centre mids ↔
      p.row = row ∧ first ≤ p.column ∧ p.column ≤ last ∧
        p.cell = kind.cellAt centre first last mids p.column := by
  obtain ⟨r, c, cell⟩ := p
  have centre_ge := h.le_centre
  have centre_le := h.centre_le
  simp only [connectorRow, h.head_eq, h.last_eq, List.mem_append, List.mem_map, List.mem_filter,
    List.mem_range'_1, List.mem_singleton, bne_iff_ne, Placement.mk.injEq]
  constructor
  · intro hp
    rcases hp with ⟨c', ⟨hrange, hne⟩, rfl, rfl, rfl⟩ | ⟨rfl, rfl, rfl⟩
    · rw [Connector.cellAt, if_neg hne]
      exact ⟨rfl, hrange.1, by omega, rfl⟩
    · rw [Connector.cellAt, if_pos rfl]
      exact ⟨rfl, centre_ge, centre_le, rfl⟩
  · intro hp
    obtain ⟨rfl, hfirst, hlast, rfl⟩ := hp
    by_cases hc : c = centre
    · subst hc
      rw [Connector.cellAt, if_pos rfl]
      exact .inr ⟨rfl, rfl, rfl⟩
    · rw [Connector.cellAt, if_neg hc]
      exact .inl ⟨c, ⟨by omega, hc⟩, rfl, rfl, rfl⟩

theorem isResistor_cellAt (column : Nat) :
    (kind.cellAt centre first last mids column).isResistor = false := by
  unfold Connector.cellAt
  split
  · cases kind <;> rfl
  · rfl

/-- **The ports of a connector row**: between its cells, at the junction, and at
the branches. -/
theorem hasPort_cellAt (h : Spreads mids centre first last) {column : Nat} {side : Side} :
    (kind.cellAt centre first last mids column).hasPort side ↔
      match side with
      | .left => column ≠ first
      | .right => column ≠ last
      | .up => column ∈ kind.ins centre mids
      | .down => column ∈ kind.outs centre mids := by
  have centre_ge := h.le_centre
  have centre_le := h.centre_le
  unfold Connector.cellAt
  by_cases hc : column = centre
  · subst hc
    rw [if_pos rfl]
    cases kind <;> cases side <;>
      simp [Connector.cell, Cell.hasPort, Connector.ins, Connector.outs] <;> omega
  · rw [if_neg hc]
    by_cases hm : column ∈ mids
    · cases kind <;> cases side <;>
        simp [Connector.tap, Cell.hasPort, Connector.ins, Connector.outs, hm, hc]
    · cases kind <;> cases side <;>
        simp [Cell.hasPort, Connector.ins, Connector.outs, hm, hc]

/-- A port of a connector row, by its side. -/
theorem touches_connectorRow (h : Spreads mids centre first last) {p : Port} {k : Nat} :
    Touches (level (connectorRow kind row centre mids) j) p k ↔
      k = j ∧ p.row = row ∧ first ≤ p.column ∧ p.column ≤ last ∧
        (kind.cellAt centre first last mids p.column).hasPort p.side := by
  rw [touches_level]
  constructor
  · intro hp
    obtain ⟨hk, x, hx, hrow, hcolumn, hport⟩ := hp
    obtain ⟨xrow, hfirst, hlast, hcell⟩ := (mem_connectorRow h).mp hx
    rw [hcell, hcolumn] at hport
    exact ⟨hk, by omega, by omega, by omega, hport⟩
  · intro hp
    obtain ⟨hk, hrow, hfirst, hlast, hport⟩ := hp
    refine ⟨hk, ⟨row, p.column, kind.cellAt centre first last mids p.column⟩, ?_, hrow.symm, rfl,
      hport⟩
    exact (mem_connectorRow h).mpr ⟨rfl, hfirst, hlast, rfl⟩

theorem depicts_connectorRow (h : Spreads mids centre first last) (kind : Connector)
    (row j : Nat) :
    Depicts (level (connectorRow kind row centre mids) j) (connectorRow kind row centre mids) [] := by
  apply depicts_level
  intro p hp
  rw [((mem_connectorRow h).mp hp).2.2.2]
  exact isResistor_cellAt p.column

/-! ## The block of a connector row -/

/-- The columns where a connector row is open are columns of it. -/
theorem Spreads.open_bounds (h : Spreads mids centre first last) {column : Nat}
    (hc : column ∈ kind.ins centre mids ∨ column ∈ kind.outs centre mids) :
    first ≤ column ∧ column ≤ last := by
  have hc : column ∈ mids ∨ column = centre := by
    cases kind
    · exact hc.symm.imp_right List.mem_singleton.mp
    · exact hc.imp_right List.mem_singleton.mp
  rcases hc with hc | rfl
  · exact h.bounds column hc
  · exact ⟨h.le_centre, h.centre_le⟩

/-- **A connector row is a block**, open at the junction and at the branches. -/
theorem block_connectorRow {left right : Nat} (h : Spreads mids centre first last)
    (hleft : left ≤ first) (hright : last < right) :
    Block (level (connectorRow kind row centre mids) j) left right row (row + 1)
      (kind.ins centre mids) j (kind.outs centre mids) j where
  inside := by
    intro x hx
    obtain ⟨hrow, hfirst, hlast, -⟩ := (mem_connectorRow h).mp hx.1
    omega
  distinct := by
    intro x hx y hy hrow hcolumn
    obtain ⟨hx, xupper, xlower⟩ := hx
    obtain ⟨hy, yupper, ylower⟩ := hy
    have xcell := ((mem_connectorRow h).mp hx).2.2.2
    have ycell := ((mem_connectorRow h).mp hy).2.2.2
    obtain ⟨⟨r, c, cell⟩, upper, lower⟩ := x
    obtain ⟨⟨r', c', cell'⟩, upper', lower'⟩ := y
    simp_all
  conducts := fun x hx _ => hx.2.1.trans hx.2.2.symm
  faces := by
    intro p k hp
    obtain ⟨rfl, hrow, hfirst, hlast, hport⟩ := (touches_connectorRow h).mp hp
    obtain ⟨r, c, side⟩ := p
    cases hrow
    have hport := (hasPort_cellAt h).mp hport
    cases side with
    | up => exact .inr (.inl ⟨rfl, rfl, hport, rfl⟩)
    | down => exact .inr (.inr ⟨rfl, rfl, hport, rfl⟩)
    | left =>
      -- a column to the left of it is not the last one
      have hfirst : first ≤ c := hfirst
      have hlast : c ≤ last := hlast
      have hport : c ≠ first := hport
      have hc : c - 1 + 1 = c := by omega
      refine .inl ⟨⟨r, c - 1, .right⟩, ⟨hc.symm, rfl⟩, (touches_connectorRow h).mpr ?_⟩
      refine ⟨rfl, rfl, ?_, ?_, (hasPort_cellAt h).mpr ?_⟩
      · show first ≤ c - 1
        omega
      · show c - 1 ≤ last
        omega
      · show c - 1 ≠ last
        omega
    | right =>
      have hfirst : first ≤ c := hfirst
      have hlast : c ≤ last := hlast
      have hport : c ≠ last := hport
      refine .inl ⟨_, Port.faces_right r c, (touches_connectorRow h).mpr ?_⟩
      refine ⟨rfl, rfl, ?_, ?_, (hasPort_cellAt h).mpr ?_⟩
      · show first ≤ c + 1
        omega
      · show c + 1 ≤ last
        omega
      · show c + 1 ≠ first
        omega
  entry := by
    intro c hc
    obtain ⟨hfirst, hlast⟩ := h.open_bounds (.inl hc)
    exact (touches_connectorRow h).mpr ⟨rfl, rfl, hfirst, hlast, (hasPort_cellAt h).mpr hc⟩
  exit := by
    intro c hc
    obtain ⟨hfirst, hlast⟩ := h.open_bounds (.inr hc)
    exact ⟨row, rfl,
      (touches_connectorRow h).mpr ⟨rfl, rfl, hfirst, hlast, (hasPort_cellAt h).mpr hc⟩⟩

/-- **A connector row is one wire**: each port of it is joined to the right of
its first cell. -/
theorem connected_connectorRow (h : Spreads mids centre first last) :
    Connected (level (connectorRow kind row centre mids) j) := by
  intro g hg
  have first_lt := h.first_lt
  have cell (c : Nat) (hfirst : first ≤ c) (hlast : c ≤ last) :
      g.cell row c = kind.cellAt centre first last mids c :=
    hg ⟨⟨row, c, _⟩, j, j⟩ ⟨(mem_connectorRow h).mpr ⟨rfl, hfirst, hlast, rfl⟩, rfl, rfl⟩
  have port (c : Nat) (side : Side) (hfirst : first ≤ c) (hlast : c ≤ last)
      (hport : (kind.cellAt centre first last mids c).hasPort side) : g.HasPort ⟨row, c, side⟩ := by
    rw [Grid.HasPort, cell c hfirst hlast]
    exact hport
  have through (c : Nat) (side side' : Side) (hfirst : first ≤ c) (hlast : c ≤ last)
      (hport : (kind.cellAt centre first last mids c).hasPort side)
      (hport' : (kind.cellAt centre first last mids c).hasPort side') :
      g.Joined ⟨row, c, side⟩ ⟨row, c, side'⟩ := by
    refine (Grid.Linked.through (port c side hfirst hlast hport)
      (port c side' hfirst hlast hport') ?_).joined
    rw [cell c hfirst hlast]
    exact isResistor_cellAt c
  -- from the first column on, each cell is reached from the one on its left
  have reach (c : Nat) (hfirst : first ≤ c) : c ≤ last → ∀ side,
      (kind.cellAt centre first last mids c).hasPort side →
      g.Joined ⟨row, first, .right⟩ ⟨row, c, side⟩ := by
    induction c, hfirst using Nat.le_induction with
    | base =>
      intro hlast side hport
      have hright : first ≠ last := by omega
      exact through first .right side (Nat.le_refl _) hlast ((hasPort_cellAt h).mpr hright) hport
    | succ c hfirst ih =>
      intro hlast side hport
      have hright : c ≠ last := by omega
      have hleft : c + 1 ≠ first := by omega
      have right : (kind.cellAt centre first last mids c).hasPort .right :=
        (hasPort_cellAt h).mpr hright
      have left : (kind.cellAt centre first last mids (c + 1)).hasPort .left :=
        (hasPort_cellAt h).mpr hleft
      have border : g.Joined ⟨row, c, .right⟩ ⟨row, c + 1, .left⟩ :=
        (Grid.Linked.border (port c .right hfirst (by omega) right)
          (port (c + 1) .left (by omega) hlast left) (Port.faces_right row c)).joined
      exact (ih (by omega) .right right).trans
        (border.trans (through (c + 1) .left side (by omega) hlast left hport))
  intro p q k hp hq
  obtain ⟨-, prow, pfirst, plast, pport⟩ := (touches_connectorRow h).mp hp
  obtain ⟨-, qrow, qfirst, qlast, qport⟩ := (touches_connectorRow h).mp hq
  obtain ⟨r, c, side⟩ := p
  obtain ⟨r', c', side'⟩ := q
  cases prow
  cases qrow
  exact (reach c pfirst plast side pport).symm.trans (reach c' qfirst qlast side' qport)

end SeriesParallel
