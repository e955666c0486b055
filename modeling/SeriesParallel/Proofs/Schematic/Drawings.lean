import SeriesParallel.Proofs.Schematic.Connectors
import SeriesParallel.Proofs.Schematic.Packing

/-!
# Schematic — drawings of networks

Laying out a chain draws it as a strand between any two junctions, with the
resistors of its netlist. The induction is on the network: elements in series
are strands one below the other, and a group is a split, the strands of its
branches side by side, and a merge.

Branches that are side by side are only connected through the two connector
rows. A **bundle** of strands says so: it is connected together with every
frame that closes it.
-/

namespace SeriesParallel

variable {R : Type}

/-! ## Frames and bundles -/

section

variable {fs ws ws' : Set Contact} {left middle right top bottom m i o n k n' : Nat}
  {mids : List Nat}

/-- Connected contacts around branches: junction `i` above the columns `mids`
and junction `o` below them. -/
structure Frame (fs : Set Contact) (top bottom : Nat) (mids : List Nat) (i o n : Nat) : Prop where
  connected : Connected fs
  junctions : ∀ p j, Touches fs p j → j < n
  above : ∀ m ∈ mids, ∃ row, row + 1 = top ∧ Touches fs ⟨row, m, .down⟩ i
  below : ∀ m ∈ mids, Touches fs ⟨bottom, m, .up⟩ o

/-- A strand between the two junctions of a frame becomes a part of it. -/
theorem Frame.insert (hf : Frame fs top bottom (m :: mids) i o n)
    (h : Strand ws left right top bottom m i o n k) (hi : i < n) (ho : o < n) (hk : n ≤ k) :
    Frame (fs ∪ ws) top bottom mids i o k where
  connected := by
    refine hf.connected.union h.connected fun p q j hp hq => ?_
    have hm : m ∈ m :: mids := List.mem_cons_self
    -- other junctions of the strand are new to the frame
    have hj : j = i ∨ j = o := by
      have := hf.junctions p j hp
      have := h.junctions q j hq
      omega
    rcases hj with rfl | rfl
    · obtain ⟨row, rfl, habove⟩ := hf.above m hm
      exact ⟨_, _, Port.faces_below row m, habove, h.entry⟩
    · obtain ⟨row, rfl, hexit⟩ := h.exit
      exact ⟨_, _, (Port.faces_below row m).symm, hf.below m hm, hexit⟩
  junctions := by
    intro p j hp
    rcases touches_union.mp hp with hp | hp
    · have := hf.junctions p j hp
      omega
    · have := h.junctions p j hp
      omega
  above := by
    intro c hc
    obtain ⟨row, hrow, habove⟩ := hf.above c (List.mem_cons_of_mem _ hc)
    exact ⟨row, hrow, touches_union.mpr (.inl habove)⟩
  below := fun c hc => touches_union.mpr (.inl (hf.below c (List.mem_cons_of_mem _ hc)))

/-- Strands side by side, all from junction `i` to junction `o`. -/
structure Bundle (ws : Set Contact) (left right top bottom : Nat) (mids : List Nat)
    (i o n n' : Nat) : Prop where
  block : Block ws left right top bottom mids i mids o
  connected : ∀ fs, Frame fs top bottom mids i o n → Connected (fs ∪ ws)
  junctions : ∀ p j, Touches ws p j → j = i ∨ j = o ∨ n ≤ j ∧ j < n'

theorem Bundle.empty : Bundle ∅ left right top bottom [] i o n n where
  block := Block.empty left right top bottom i o
  connected := by
    intro fs hf
    rw [Set.union_empty]
    exact hf.connected
  junctions := by
    intro p j hp
    obtain ⟨x, hx, -⟩ := hp
    exact hx.elim

/-- **A strand beside a bundle** is a bundle. -/
theorem Bundle.cons (h : Strand ws left middle top bottom m i o n k)
    (h' : Bundle ws' middle right top bottom mids i o k n') (hi : i < n) (ho : o < n)
    (hk : n ≤ k) (hn : k ≤ n') (hright : middle ≤ right) :
    Bundle (ws ∪ ws') left right top bottom (m :: mids) i o n n' where
  block := by
    have := h.column_inside
    exact h.block.beside h'.block (by omega) hright
  connected := by
    intro fs hf
    rw [← Set.union_assoc]
    exact h'.connected _ (hf.insert h hi ho hk)
  junctions := by
    intro p j hp
    rcases touches_union.mp hp with hp | hp
    · have := h.junctions p j hp
      omega
    · have := h'.junctions p j hp
      omega

/-- **A bundle between connector rows** is a strand. -/
theorem Bundle.strand {row centre first last : Nat}
    (h : Bundle ws left right (row + 1) bottom mids i o n n') (hs : Spreads mids centre first last)
    (hleft : left ≤ first) (hright : last < right) (hi : i < n) (ho : o < n) (hio : i ≠ o)
    (hbottom : row + 1 ≤ bottom) :
    Strand (level (connectorRow .split row centre mids) i ∪ ws ∪
        level (connectorRow .merge bottom centre mids) o)
      left right row (bottom + 1) centre i o n n' := by
  have split : Block (level (connectorRow .split row centre mids) i) left right row (row + 1)
      [centre] i mids i := block_connectorRow hs hleft hright
  have merge : Block (level (connectorRow .merge bottom centre mids) o) left right bottom
      (bottom + 1) mids o [centre] o := block_connectorRow hs hleft hright
  have frame : Frame (level (connectorRow .split row centre mids) i ∪
      level (connectorRow .merge bottom centre mids) o) (row + 1) bottom mids i o n := by
    refine ⟨?_, ?_, fun m hm => ?_, fun m hm => ?_⟩
    · refine (connected_connectorRow hs).union (connected_connectorRow hs) fun p q j hp hq => ?_
      exact absurd ((touches_level.mp hp).1.symm.trans (touches_level.mp hq).1) hio
    · intro p j hp
      rcases touches_union.mp hp with hp | hp
      · rw [(touches_level.mp hp).1]
        exact hi
      · rw [(touches_level.mp hp).1]
        exact ho
    · obtain ⟨r, hr, hexit⟩ := split.exit m hm
      exact ⟨r, hr, touches_union.mpr (.inl hexit)⟩
    · exact touches_union.mpr (.inr (merge.entry m hm))
  refine ⟨(split.below h.block (Nat.le_succ _) hbottom).below merge (by omega) (Nat.le_succ _),
    by omega, ?_, ?_⟩
  · rw [Set.union_right_comm]
    exact h.connected _ frame
  · intro p j hp
    rcases touches_union.mp hp with hp | hp
    · rcases touches_union.mp hp with hp | hp
      · exact .inl (touches_level.mp hp).1
      · exact h.junctions p j hp
    · exact .inr (.inl (touches_level.mp hp).1)

end

/-! ## Chains -/

/-- Laid out in any span that is wide enough, a chain is a strand with the
resistors of its netlist. -/
def Chain.Drawn (c : Chain R) : Prop :=
  ∀ (s : Span) (row i o n : Nat), c.columns ≤ s.width → i < n → o < n → i ≠ o →
    ∃ ws, Strand ws s.start s.stop row (c.place s row).2 s.midpoint i o n (c.netlist i o n).2 ∧
      Depicts ws (c.place s row).1 (c.netlist i o n).1

/-- Branches in spans side by side are a bundle, each extended by wires down to
a common row. -/
theorem exists_bundle {bs : List (Chain R)} (hbs : ∀ b ∈ bs, b.Drawn) {ts : List Span}
    {left right top bottom i o n : Nat} (hwidth : ts.map Span.width = bs.map Chain.columns)
    (apart : ts.Pairwise fun t u => t.stop ≤ u.start)
    (hin : ∀ t ∈ ts, left ≤ t.start ∧ t.stop ≤ right)
    (hbottom : ∀ r ∈ (placeBranches top bs ts).2, r ≤ bottom)
    (hi : i < n) (ho : o < n) (hio : i ≠ o) :
    ∃ ws, Bundle ws left right top bottom (ts.map Span.midpoint) i o n
        (branchNetlists i o n bs).2 ∧
      Depicts ws ((placeBranches top bs ts).1 ++
        extensions bottom (ts.map Span.midpoint) (placeBranches top bs ts).2)
        (branchNetlists i o n bs).1 := by
  induction bs generalizing ts left n with
  | nil =>
    cases ts with
    | nil => exact ⟨∅, .empty, .empty⟩
    | cons t ts => simp at hwidth
  | cons b bs ih =>
    cases ts with
    | nil => simp at hwidth
    | cons t ts =>
      obtain ⟨width_eq, hwidth⟩ := List.cons.inj hwidth
      obtain ⟨after, apart⟩ := List.pairwise_cons.mp apart
      obtain ⟨hleft, hright⟩ := hin t List.mem_cons_self
      have hk : n ≤ (b.netlist i o n).2 := b.le_netlist i o n
      -- the first branch, down to the common row
      obtain ⟨ws, strand, depicts⟩ :=
        hbs b List.mem_cons_self t top i o n (Nat.le_of_eq width_eq.symm) hi ho hio
      have strand := (strand.extend (hbottom _ List.mem_cons_self)).widen hleft (Nat.le_refl _)
      have depicts := depicts.union (depicts_wires t.midpoint (b.place t top).2 bottom o)
      rw [List.append_nil] at depicts
      -- the other branches, in the columns after it
      obtain ⟨ws', bundle, depicts'⟩ := ih (fun b' hb => hbs b' (List.mem_cons_of_mem _ hb)) hwidth
        apart (fun u hu => ⟨after u hu, (hin u (List.mem_cons_of_mem _ hu)).2⟩)
        (fun r hr => hbottom r (List.mem_cons_of_mem _ hr)) (Nat.lt_of_lt_of_le hi hk)
        (Nat.lt_of_lt_of_le ho hk)
      exact ⟨_, bundle.cons strand hi ho hk (le_branchNetlists (fun b' _ => b'.le_netlist) i o _)
        hright, (depicts.union depicts').perm (perm_placeBranches_cons b bs t ts top bottom)⟩

/-- **A network is drawn as its netlist** when every group branches. -/
theorem Chain.drawn {c : Chain R} (h : c.Branching) : c.Drawn := by
  induction c using Chain.inductionOn with
  | resistor l v r =>
    intro s row i o n hwidth hi ho hio
    have width_pos : 0 < s.width := Nat.lt_of_lt_of_le (Chain.columns_pos _) hwidth
    exact ⟨_, strand_resistor l hio s.start_le_midpoint (Span.midpoint_lt_stop width_pos),
      depicts_resistor ⟨l, i, o⟩ row s.midpoint⟩
  | group l v bs ih =>
    intro s row i o n hwidth hi ho hio
    have divides := divides_branches h.two_le hwidth
    obtain ⟨first, last, spreads, hfirst, hlast⟩ := divides.exists_spreads
    let rows := (placeBranches (row + 1) bs (branchSpans s (bs.map columns))).2
    let bottom := rows.foldl max (row + 1)
    obtain ⟨htop, hrows⟩ := le_foldl_max rows (row + 1)
    obtain ⟨ws, bundle, depicts⟩ := exists_bundle (fun b hb => ih b hb (h.branch hb))
      (map_width_branchSpans s _) divides.apart divides.within hrows hi ho hio
    have depicts := ((depicts_connectorRow spreads .split row i).union depicts).union
      (depicts_connectorRow spreads .merge bottom o)
    rw [List.nil_append, List.append_nil, ← List.append_assoc] at depicts
    exact ⟨_, bundle.strand spreads hfirst hlast hi ho hio htop, depicts⟩
  | link e c he hc =>
    intro s row i o n hwidth hi ho hio
    obtain ⟨branching_e, branching_c⟩ := h.link
    obtain ⟨width_e, width_c⟩ := columns_le_of_link hwidth
    have hk : n + 1 ≤ (e.netlist i n (n + 1)).2 := (last e).le_netlist i n (n + 1)
    obtain ⟨ws, strand, depicts⟩ := he branching_e s row i n (n + 1) width_e (by omega) (by omega)
      (by omega)
    obtain ⟨ws', strand', depicts'⟩ := hc branching_c s (e.place s row).2 n o
      (e.netlist i n (n + 1)).2 width_c (by omega) (by omega) (by omega)
    exact ⟨_, strand.below strand' hi ho hio hk (c.le_netlist n o _), depicts.union depicts'⟩

end SeriesParallel
