import SeriesParallel.Proofs.Circuit.Invariant
import SeriesParallel.Proofs.Schematic.Faithful
import SeriesParallel.Proofs.Schematic.Lines
import SeriesParallel.Schematic

/-!
# Schematic — circuits as text

The grid of a circuit is seamless: its cells can be drawn, which is by
induction on the network, and their ports match because the grid shows one
strand. So the text of every schematic is aligned.
-/

namespace SeriesParallel

variable {R : Type}

/-! ## Cells that can be drawn -/

/-- The cells of a connector row can be drawn. -/
theorem drawable_cellAt {kind : Connector} {mids : List Nat} {centre first last column : Nat}
    (h : Spreads mids centre first last) :
    (kind.cellAt centre first last mids column).Drawable := by
  have first_lt := h.first_lt
  have hfirst : first ∈ mids := List.mem_of_mem_head? h.head_eq
  have hlast : last ∈ mids := List.mem_of_mem_getLast? h.last_eq
  unfold Connector.cellAt
  by_cases hc : column = centre
  · rw [if_pos hc]
    have beside : first < centre ∨ centre < last := by omega
    cases kind <;> simpa [Connector.cell, Cell.Drawable] using beside
  · rw [if_neg hc]
    constructor
    · have apart : column ≠ first ∨ column ≠ last := by omega
      simpa using apart
    · -- the wire ends at branches, which have taps
      intro hnone
      by_cases hm : column ∈ mids
      · cases kind <;> simp [hm, Connector.tap] at hnone
      · have inner : column ≠ first ∧ column ≠ last :=
          ⟨fun heq => hm (heq ▸ hfirst), fun heq => hm (heq ▸ hlast)⟩
        simpa using inner

theorem forall_mem_placeBranches {P : Placement → Prop} {bs : List (Chain R)} {ts : List Span}
    {row : Nat} (h : ∀ b ∈ bs, ∀ t : Span, b.columns ≤ t.width → ∀ p ∈ (b.place t row).1, P p)
    (hwidth : ts.map Span.width = bs.map Chain.columns) :
    ∀ p ∈ (placeBranches row bs ts).1, P p := by
  induction bs generalizing ts with
  | nil =>
    intro p hp
    simp [placeBranches] at hp
  | cons b bs ih =>
    cases ts with
    | nil => simp at hwidth
    | cons t ts =>
      obtain ⟨width_eq, hwidth⟩ := List.cons.inj hwidth
      intro p hp
      rcases List.mem_append.mp hp with hp | hp
      · exact h b List.mem_cons_self t (Nat.le_of_eq width_eq.symm) p hp
      · exact ih (fun b' hb => h b' (List.mem_cons_of_mem _ hb)) hwidth p hp

/-- **What is placed can be drawn**, when the labels can. -/
theorem Chain.drawable_place {c : Chain R} (branching : c.Branching)
    (labels : ∀ l ∈ c.resistorLabels, (Cell.resistor l).Drawable) (s : Span) (row : Nat)
    (hwidth : c.columns ≤ s.width) : ∀ p ∈ (c.place s row).1, p.cell.Drawable := by
  induction c using Chain.inductionOn generalizing s row with
  | resistor l v r =>
    intro p hp
    cases List.mem_singleton.mp hp
    exact labels l (by rw [resistorLabels_resistor]; exact List.mem_cons_self)
  | group l v bs ih =>
    obtain ⟨first, last, spreads, -⟩ :=
      (divides_branches branching.two_le hwidth).exists_spreads
    rw [resistorLabels_group] at labels
    have inside : ∀ p ∈ (placeBranches (row + 1) bs (branchSpans s (bs.map columns))).1,
        p.cell.Drawable := by
      refine forall_mem_placeBranches (fun b hb t => ?_) (map_width_branchSpans s _)
      exact ih b hb (branching.branch hb)
        (fun l hl => labels l (List.mem_flatMap.mpr ⟨b, hb, hl⟩)) t (row + 1)
    intro p hp
    simp only [place, Element.place, List.mem_append] at hp
    rcases hp with ((hp | hp) | hp) | hp
    · rw [((mem_connectorRow spreads).mp hp).2.2.2]
      exact drawable_cellAt spreads
    · exact inside p hp
    · obtain ⟨⟨mid, r⟩, -, hp⟩ := List.mem_flatMap.mp hp
      obtain ⟨r', -, rfl⟩ := List.mem_map.mp hp
      trivial
    · rw [((mem_connectorRow spreads).mp hp).2.2.2]
      exact drawable_cellAt spreads
  | link e c he hc =>
    obtain ⟨branching_e, branching_c⟩ := branching.link
    rw [resistorLabels_link, List.forall_mem_append] at labels
    obtain ⟨width_e, width_c⟩ := columns_le_of_link hwidth
    intro p hp
    rcases List.mem_append.mp hp with hp | hp
    · exact he branching_e labels.1 s row width_e p hp
    · exact hc branching_c labels.2 s _ width_c p hp

theorem Chain.drawable_layout {c : Chain R} (branching : c.Branching)
    (labels : ∀ l ∈ c.resistorLabels, (Cell.resistor l).Drawable) :
    ∀ p ∈ c.layout.placements, p.cell.Drawable := by
  intro p hp
  rw [placements_layout, List.mem_append, List.mem_cons, List.mem_singleton] at hp
  rcases hp with (rfl | hp) | rfl
  · trivial
  · exact drawable_place branching labels _ 1 (Nat.le_refl _) p hp
  · trivial

/-! ## Ports that match -/

namespace Chain.Traced

variable {c : Chain R} {ws : Set Contact} {n : Nat} {p q : Port}

theorem drawable_cell (h : c.Traced ws n)
    (drawable : ∀ p ∈ c.layout.placements, p.cell.Drawable) (row column : Nat) :
    (c.layout.grid.cell row column).Drawable := by
  by_cases hempty : c.layout.grid.cell row column = .empty
  · rw [hempty]
    trivial
  · obtain ⟨x, hx, rfl, rfl⟩ := h.only row column hempty
    rw [h.shows x hx]
    exact drawable _ ((h.depicts.placements _).mpr ⟨x, hx, rfl⟩)

/-- **A port within the grid meets a port.** -/
theorem hasPort_of_faces (h : c.Traced ws n) (faces : p.Faces q)
    (hq : q.row < c.layout.grid.rows.size) (hp : c.layout.grid.HasPort p) :
    c.layout.grid.HasPort q := by
  have unlike : p ≠ c.leadInPort ∧ p ≠ c.leadOutPort := by
    constructor
    · rintro rfl
      exact (not_faces_of_row_lt hq).1 faces
    · rintro rfl
      exact (not_faces_of_row_lt hq).2 faces
  obtain ⟨q', faces', hq'⟩ := (h.faces_iff hp).mpr unlike
  rw [faces.unique faces']
  exact hq'

/-- A port that faces nothing is a terminal of the supply. -/
theorem eq_lead_of_not_faces (h : c.Traced ws n) (hp : c.layout.grid.HasPort p)
    (alone : ∀ q, p.Faces q → ¬c.layout.grid.HasPort q) : p = c.leadInPort ∨ p = c.leadOutPort := by
  by_contra hne
  obtain ⟨q, faces, hq⟩ := (h.faces_iff hp).mpr (not_or.mp hne)
  exact alone q faces hq

theorem hasPort_top_iff (h : c.Traced ws n) {column : Nat} :
    c.layout.grid.HasPort ⟨0, column, .up⟩ ↔ column = c.leadColumn := by
  constructor
  · intro hp
    rcases h.eq_lead_of_not_faces hp fun q faces => absurd faces Port.not_faces_up_zero
      with heq | heq
    · exact congrArg Port.column heq
    · cases congrArg Port.side heq
  · rintro rfl
    exact h.shows.hasPort h.touches_leadIn

theorem hasPort_bottom_iff (h : c.Traced ws n) {row column : Nat}
    (hrow : row + 1 = c.layout.grid.rows.size) :
    c.layout.grid.HasPort ⟨row, column, .down⟩ ↔ column = c.leadColumn := by
  constructor
  · intro hp
    have alone (q : Port) (faces : Port.Faces ⟨row, column, .down⟩ q) :
        ¬c.layout.grid.HasPort q := by
      intro hq
      have inside := hq.row_lt
      rw [faces.row_eq_succ, hrow] at inside
      exact Nat.lt_irrefl _ inside
    rcases h.eq_lead_of_not_faces hp alone with heq | heq
    · cases congrArg Port.side heq
    · exact congrArg Port.column heq
  · rintro rfl
    have hlast : row = c.layout.grid.rows.size - 1 := by omega
    rw [hlast]
    exact h.shows.hasPort h.touches_leadOut

/-- **The grid of a network is seamless.** -/
theorem seamless (h : c.Traced ws n) (drawable : ∀ p ∈ c.layout.placements, p.cell.Drawable) :
    c.layout.grid.Seamless c.leadColumn where
  rectangular := Grid.rectangular_fill (Grid.rectangular_blank _) _
  nonempty := by
    rw [h.size_eq]
    exact h.strand.top_lt
  lead_lt := by
    rw [c.columns_grid_layout]
    exact h.strand.column_inside.2
  drawable := h.drawable_cell drawable
  left_end := by
    intro row
    refine Bool.eq_false_iff.mpr fun hp => ?_
    have hp : c.layout.grid.HasPort ⟨row, 0, .left⟩ := hp
    rcases h.eq_lead_of_not_faces hp fun q faces => absurd faces Port.not_faces_left_zero
      with heq | heq
    · cases congrArg Port.side heq
    · cases congrArg Port.side heq
  beside := by
    intro row column
    have faces := Port.faces_right row column
    have meet : c.layout.grid.HasPort ⟨row, column, .right⟩ ↔
        c.layout.grid.HasPort ⟨row, column + 1, .left⟩ :=
      ⟨fun hp => h.hasPort_of_faces faces hp.row_lt hp,
        fun hq => h.hasPort_of_faces faces.symm hq.row_lt hq⟩
    exact Bool.eq_iff_iff.mpr meet
  top_end := fun column => Bool.eq_iff_iff.mpr (h.hasPort_top_iff.trans decide_eq_true_iff.symm)
  below := by
    intro row column hrow
    have faces := Port.faces_below row column
    have meet : c.layout.grid.HasPort ⟨row, column, .down⟩ ↔
        c.layout.grid.HasPort ⟨row + 1, column, .up⟩ :=
      ⟨h.hasPort_of_faces faces hrow, h.hasPort_of_faces faces.symm (Nat.lt_of_succ_lt hrow)⟩
    exact Bool.eq_iff_iff.mpr meet
  bottom_end := fun row column hrow =>
    Bool.eq_iff_iff.mpr ((h.hasPort_bottom_iff hrow).trans decide_eq_true_iff.symm)

end Chain.Traced

/-! ## Circuits -/

section

variable [Quantity R] {d : Description R} {c : Circuit R}

/-- The labels of a circuit can be drawn. -/
theorem Circuit.drawable_label (h : ofDescription d = .ok c) :
    ∀ l ∈ c.root.resistorLabels, (Cell.resistor l).Drawable := by
  intro l hl
  obtain ⟨e, he, rfl⟩ := List.mem_map.mp hl
  have hmem : e.label ∈ c.root.components.map Element.label :=
    List.mem_map_of_mem (List.mem_of_mem_filter he)
  rw [labels_components h, List.mem_map] at hmem
  obtain ⟨number, hnumber, hlabel⟩ := hmem
  rw [← hlabel]
  exact ⟨length_label_pos (List.mem_range'_1.mp hnumber).1, fun ch => isUpper_of_mem_label⟩

/-- The grid of a circuit is seamless. -/
theorem Circuit.seamless_schematic (h : ofDescription d = .ok c) :
    c.schematic.Seamless c.root.leadColumn := by
  have branching : c.root.Branching := (sound_root h).branching
  obtain ⟨ws, n, traced⟩ := Chain.exists_traced branching
  exact traced.seamless (Chain.drawable_layout branching (drawable_label h))

end

/-- **The schematic of every line that describes a circuit is aligned.** -/
theorem parse_schematic_aligned {input : String} {c : Circuit Float}
    (h : Circuit.parse input = .ok c) : c.schematic.Aligned c.root.leadColumn := by
  rw [Circuit.parse] at h
  cases hd : Description.parse input with
  | error cause => simp [hd, bind, Except.bind] at h
  | ok d =>
    rw [hd] at h
    exact (Circuit.seamless_schematic h).aligned

/-- A group within a branch of a group, with resistors before and after. -/
theorem parse_schematic_aligned_groupInBranch :
    ∃ c, Circuit.parse "X:V.12:100.:220,330.:470,10;47;5" = .ok c ∧
      c.schematic.Aligned c.root.leadColumn := by
  have built : (Circuit.parse "X:V.12:100.:220,330.:470,10;47;5").isOk := by decide +kernel
  obtain ⟨c, h⟩ := exists_eq_ok_of_isOk built
  exact ⟨c, h, parse_schematic_aligned h⟩

end SeriesParallel
