import SeriesParallel.Proofs.Schematic.Connectors

/-!
# Schematic — branches side by side

What a group relies on when it is laid out. Spare columns are spread evenly
between its branches, so their spans divide the span of the group, their middles
follow one another from left to right, and the middle of the group is not beside
them. The connector rows then run from the first middle to the last one without
a break, and end there.
-/

namespace SeriesParallel

/-- A number of gaps that spare columns are spread over evenly, the wider gaps
first. -/
structure EvenGaps (slack number : Nat) (gaps : List Nat) : Prop where
  length_eq : gaps.length = number
  sum_eq : gaps.sum = slack
  even : gaps.Pairwise fun g h => h ≤ g ∧ g ≤ h + 1

theorem evenGaps_distributeGaps (slack : Nat) {number : Nat} (h : 0 < number) :
    EvenGaps slack number (distributeGaps slack number) where
  length_eq := length_distributeGaps slack number
  sum_eq := sum_distributeGaps slack h
  even := pairwise_distributeGaps slack number

/-! ## Rows without a break -/

/-- Cells on a row, in every column from a first to a last one: they are wired to
their neighbours, and to nothing beyond. -/
structure WiredAcross (ps : List Placement) (row first last : Nat) : Prop where
  row_eq : ∀ p ∈ ps, p.row = row
  covers : ∀ column, (∃ p ∈ ps, p.column = column) ↔ first ≤ column ∧ column ≤ last
  /-- The flags of neighbours agree. -/
  joined : ∀ p ∈ ps, ∀ q ∈ ps, q.column = p.column + 1 →
    p.cell.hasPort .right ∧ q.cell.hasPort .left
  closed_left : ∀ p ∈ ps, p.column = first → p.cell.hasPort .left = false
  closed_right : ∀ p ∈ ps, p.column = last → p.cell.hasPort .right = false
  /-- No cell is without a horizontal wire. -/
  wired : ∀ p ∈ ps, p.cell.hasPort .left ∨ p.cell.hasPort .right

/-- **A connector row has no break** between the first and the last branch. -/
theorem Spreads.wiredAcross {mids : List Nat} {centre first last : Nat}
    (h : Spreads mids centre first last) (kind : Connector) (row : Nat) :
    WiredAcross (connectorRow kind row centre mids) row first last := by
  have first_lt := h.first_lt
  -- a cell is wired to the left unless it is the first, and to the right unless it is the last
  have left (p : Placement) (hp : p ∈ connectorRow kind row centre mids) :
      p.cell.hasPort .left ↔ p.column ≠ first := by
    rw [((mem_connectorRow h).mp hp).2.2.2]
    exact hasPort_cellAt h
  have right (p : Placement) (hp : p ∈ connectorRow kind row centre mids) :
      p.cell.hasPort .right ↔ p.column ≠ last := by
    rw [((mem_connectorRow h).mp hp).2.2.2]
    exact hasPort_cellAt h
  have bounds (p : Placement) (hp : p ∈ connectorRow kind row centre mids) :
      first ≤ p.column ∧ p.column ≤ last := by
    obtain ⟨-, hfirst, hlast, -⟩ := (mem_connectorRow h).mp hp
    exact ⟨hfirst, hlast⟩
  constructor
  · exact fun p hp => ((mem_connectorRow h).mp hp).1
  · intro column
    constructor
    · rintro ⟨p, hp, rfl⟩
      exact bounds p hp
    · rintro ⟨hfirst, hlast⟩
      exact ⟨⟨row, column, kind.cellAt centre first last mids column⟩,
        (mem_connectorRow h).mpr ⟨rfl, hfirst, hlast, rfl⟩, rfl⟩
  · intro p hp q hq next
    have := bounds p hp
    have := bounds q hq
    exact ⟨(right p hp).mpr (by omega), (left q hq).mpr (by omega)⟩
  · intro p hp hcolumn
    exact Bool.eq_false_iff.mpr fun hport => (left p hp).mp hport hcolumn
  · intro p hp hcolumn
    exact Bool.eq_false_iff.mpr fun hport => (right p hp).mp hport hcolumn
  · intro p hp
    rcases Nat.lt_or_ge first p.column with behind | start
    · exact .inl ((left p hp).mpr (by omega))
    · exact .inr ((right p hp).mpr (by omega))

/-! ## The branches of a group -/

/-- **Branches divide the columns of their group**, wherever the group starts,
however wide its two or more branches are, and as many columns as it may have to
spare. The gaps between the branches are even and use up the spare columns. The
spans are side by side, from the start of the group to its stop. Their middles
rise, the middle of the group is between the first and the last of them, and
both connector rows run from the first to the last without a break. -/
theorem branches_divide_group {s : Span} {ws : List Nat} (two_le : 2 ≤ ws.length)
    (width_pos : ∀ w ∈ ws, 1 ≤ w) (fits : ws.sum ≤ s.width) :
    EvenGaps (s.width - ws.sum) (ws.length - 1)
      (distributeGaps (s.width - ws.sum) (ws.length - 1)) ∧
    ((branchSpans s ws).map Span.width = ws ∧ Span.Divides (branchSpans s ws) s) ∧
    ((branchSpans s ws).map Span.midpoint).Pairwise (· < ·) ∧
    ∃ first last, Spreads ((branchSpans s ws).map Span.midpoint) s.midpoint first last ∧
      ∀ kind row, WiredAcross
        (connectorRow kind row s.midpoint ((branchSpans s ws).map Span.midpoint)) row first last := by
  have divides := divides_branchSpans two_le width_pos fits
  obtain ⟨first, last, spreads, -⟩ := divides.exists_spreads
  refine ⟨evenGaps_distributeGaps _ (by omega), ⟨map_width_branchSpans s ws, divides⟩,
    divides.pairwise_midpoint, first, last, spreads, spreads.wiredAcross⟩

/-- Three branches of very different widths, with five columns to spare. -/
theorem branches_divide_group_uneven :
    (2 ≤ [1, 4, 2].length ∧ (∀ w ∈ [1, 4, 2], 1 ≤ w) ∧ [1, 4, 2].sum ≤ 12) ∧
      EvenGaps 5 2 [3, 2] ∧ Span.Divides [⟨3, 1⟩, ⟨7, 4⟩, ⟨13, 2⟩] ⟨3, 12⟩ ∧
      Spreads [3, 8, 13] 8 3 13 ∧ WiredAcross (connectorRow .merge 6 8 [3, 8, 13]) 6 3 13 := by
  have two_le : 2 ≤ [1, 4, 2].length := by decide
  have width_pos : ∀ w ∈ [1, 4, 2], 1 ≤ w := by decide
  have fits : [1, 4, 2].sum ≤ 12 := by decide
  obtain ⟨gaps, ⟨-, divides⟩, -, first, last, spreads, rows⟩ :=
    branches_divide_group (s := ⟨3, 12⟩) two_le width_pos fits
  have first_eq : 3 = first := Option.some.inj spreads.head_eq
  have last_eq : 13 = last := Option.some.inj spreads.last_eq
  subst first_eq last_eq
  exact ⟨⟨two_le, width_pos, fits⟩, gaps, divides, spreads, rows .merge 6⟩

end SeriesParallel
