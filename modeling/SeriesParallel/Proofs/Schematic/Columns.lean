import Mathlib.Algebra.GroupWithZero.Nat
import SeriesParallel.Schematic.Layout

/-!
# Schematic — columns

The branches of a group get spans of their own, side by side, in the span of
the group. The first one starts where the group does and the last one stops
where the group does, so the middle of the group is between the middles of its
outer branches.
-/

namespace SeriesParallel

variable {R : Type}

/-! ## Spans -/

namespace Span

/-- The first column after a span. -/
def stop (s : Span) : Nat := s.start + s.width

/-- One span lies within another. -/
def Within (t s : Span) : Prop := s.start ≤ t.start ∧ t.stop ≤ s.stop

theorem start_le_midpoint (s : Span) : s.start ≤ s.midpoint := Nat.le_add_right _ _

theorem midpoint_lt_stop {s : Span} (h : 0 < s.width) : s.midpoint < s.stop := by
  unfold midpoint stop
  omega

end Span

/-! ## The largest of numbers -/

theorem foldl_max_le_iff {rows : List Nat} {top n : Nat} :
    rows.foldl max top ≤ n ↔ top ≤ n ∧ ∀ r ∈ rows, r ≤ n := by
  induction rows generalizing top with
  | nil => simp
  | cons row rows ih => rw [List.foldl_cons, ih, Nat.max_le, List.forall_mem_cons, and_assoc]

theorem le_foldl_max (rows : List Nat) (top : Nat) :
    top ≤ rows.foldl max top ∧ ∀ r ∈ rows, r ≤ rows.foldl max top :=
  foldl_max_le_iff.mp (Nat.le_refl _)

/-! ## Gaps -/

/-- The first gaps take their shares, and one column more while there are some
left over. -/
theorem sum_shares (share extra n : Nat) :
    ((List.range n).map fun i => share + if i < extra then 1 else 0).sum
      = n * share + min n extra := by
  induction n with
  | zero => simp
  | succ n ih =>
    rw [List.range_succ, List.map_append, List.sum_append, ih, Nat.succ_mul]
    by_cases h : n < extra
    · simp only [List.map_cons, List.map_nil, List.sum_cons, List.sum_nil, h, if_true]
      omega
    · simp only [List.map_cons, List.map_nil, List.sum_cons, List.sum_nil, h, if_false]
      omega

/-- **All spare columns are spread** over the gaps, if there are any gaps. -/
theorem sum_distributeGaps (slack : Nat) {gaps : Nat} (h : 0 < gaps) :
    (distributeGaps slack gaps).sum = slack := by
  have extra : slack % gaps < gaps := Nat.mod_lt _ h
  rw [distributeGaps, sum_shares, Nat.min_eq_right (Nat.le_of_lt extra)]
  exact Nat.div_add_mod slack gaps

/-- Without gaps, spare columns stay spare. -/
theorem sum_distributeGaps_le (slack gaps : Nat) : (distributeGaps slack gaps).sum ≤ slack := by
  rcases Nat.eq_zero_or_pos gaps with rfl | h
  · exact Nat.zero_le slack
  · exact Nat.le_of_eq (sum_distributeGaps slack h)

theorem length_distributeGaps (slack gaps : Nat) : (distributeGaps slack gaps).length = gaps := by
  simp [distributeGaps]

/-- **Gaps are even**: they differ by one column at most, the wider ones first. -/
theorem pairwise_distributeGaps (slack gaps : Nat) :
    (distributeGaps slack gaps).Pairwise fun g h => h ≤ g ∧ g ≤ h + 1 := by
  rw [distributeGaps, List.pairwise_map]
  refine List.pairwise_lt_range.imp fun {i j} hij => ?_
  split <;> split <;> omega

/-! ## Spans side by side -/

theorem map_width_spansFrom (start : Nat) (ws gaps : List Nat) :
    (spansFrom start ws gaps).map Span.width = ws := by
  induction ws generalizing start gaps with
  | nil => rfl
  | cons w ws ih => rw [spansFrom, List.map_cons, ih]

theorem start_le_of_mem_spansFrom {start : Nat} {ws gaps : List Nat} {t : Span}
    (ht : t ∈ spansFrom start ws gaps) : start ≤ t.start := by
  induction ws generalizing start gaps with
  | nil => simp [spansFrom] at ht
  | cons w ws ih =>
    rcases List.mem_cons.mp ht with rfl | ht
    · exact Nat.le_refl _
    · have := ih ht
      omega

/-- No span stops after widths and gaps have added up. -/
theorem stop_le_of_mem_spansFrom {start : Nat} {ws gaps : List Nat} {t : Span}
    (ht : t ∈ spansFrom start ws gaps) : t.stop ≤ start + ws.sum + gaps.sum := by
  induction ws generalizing start gaps with
  | nil => simp [spansFrom] at ht
  | cons w ws ih =>
    have gaps_eq : gaps.sum = gaps.headD 0 + gaps.tail.sum := by cases gaps <;> simp
    rw [List.sum_cons]
    rcases List.mem_cons.mp ht with rfl | ht
    · show start + w ≤ _
      omega
    · have := ih ht
      omega

/-- Every span stops before the next one starts. -/
theorem pairwise_spansFrom (start : Nat) (ws gaps : List Nat) :
    (spansFrom start ws gaps).Pairwise fun t u => t.stop ≤ u.start := by
  induction ws generalizing start gaps with
  | nil => exact .nil
  | cons w ws ih =>
    refine .cons (fun u hu => ?_) (ih _ _)
    have := start_le_of_mem_spansFrom hu
    show start + w ≤ u.start
    omega

/-- The last span stops where widths and gaps have added up to. -/
theorem stop_getLast?_spansFrom {start : Nat} {ws gaps : List Nat} {t : Span}
    (hgaps : gaps.length + 1 = ws.length) (ht : (spansFrom start ws gaps).getLast? = some t) :
    t.stop = start + ws.sum + gaps.sum := by
  -- there is a gap after every span but the last one
  induction ws generalizing start gaps with
  | nil => simp at hgaps
  | cons w ws ih =>
    cases gaps with
    | nil =>
      have hws : ws = [] := List.length_eq_zero_iff.mp (by simpa using hgaps.symm)
      subst hws
      simp only [spansFrom, List.getLast?_singleton, Option.some.injEq] at ht
      subst ht
      simp [Span.stop]
    | cons gap gaps =>
      have hlen : gaps.length + 1 = ws.length := by simpa using hgaps
      cases ws with
      | nil => simp at hlen
      | cons w' ws =>
        rw [spansFrom, spansFrom, List.getLast?_cons_cons, ← spansFrom] at ht
        have := ih hlen ht
        simp only [List.headD_cons, List.sum_cons] at this ⊢
        omega

/-- Spans without gaps between them cover the columns that their widths add up to. -/
theorem exists_mem_spansFrom {start : Nat} {ws gaps : List Nat} (hgaps : gaps.sum = 0)
    {column : Nat} (hstart : start ≤ column) (hstop : column < start + ws.sum) :
    ∃ t ∈ spansFrom start ws gaps, t.start ≤ column ∧ column < t.stop := by
  induction ws generalizing start gaps with
  | nil =>
    rw [List.sum_nil] at hstop
    omega
  | cons w ws ih =>
    have gaps_eq : gaps.sum = gaps.headD 0 + gaps.tail.sum := by cases gaps <;> simp
    rw [List.sum_cons] at hstop
    rw [spansFrom]
    rcases Nat.lt_or_ge column (start + w) with first | after
    · exact ⟨⟨start, w⟩, List.mem_cons_self, hstart, first⟩
    · have tail_sum : gaps.tail.sum = 0 := by omega
      have next : start + w + gaps.headD 0 ≤ column := by omega
      obtain ⟨t, ht, hcolumn⟩ := ih tail_sum next (by omega)
      exact ⟨t, List.mem_cons_of_mem _ ht, hcolumn⟩

/-! ## The spans of branches -/

/-- Two or more spans divide a span: they lie in it side by side, the first one
at its start and the last one at its stop. -/
structure Span.Divides (ts : List Span) (s : Span) : Prop where
  two_le : 2 ≤ ts.length
  width_pos : ∀ t ∈ ts, 0 < t.width
  within : ∀ t ∈ ts, t.Within s
  apart : ts.Pairwise fun t u => t.stop ≤ u.start
  start_eq : ∀ t, ts.head? = some t → t.start = s.start
  stop_eq : ∀ t, ts.getLast? = some t → t.stop = s.stop

theorem branchSpans_eq (s : Span) (ws : List Nat) : branchSpans s ws =
    spansFrom s.start ws (distributeGaps (s.width - ws.sum) (ws.length - 1)) := rfl

theorem map_width_branchSpans (s : Span) (ws : List Nat) :
    (branchSpans s ws).map Span.width = ws := map_width_spansFrom _ _ _

theorem length_branchSpans (s : Span) (ws : List Nat) :
    (branchSpans s ws).length = ws.length := by
  rw [← List.length_map Span.width, map_width_branchSpans]

theorem width_pos_branchSpans {s : Span} {ws : List Nat} (width_pos : ∀ w ∈ ws, 0 < w) :
    ∀ t ∈ branchSpans s ws, 0 < t.width := by
  intro t ht
  apply width_pos
  rw [← map_width_branchSpans s ws]
  exact List.mem_map_of_mem ht

/-- **The spans of branches lie within the span of the group** when the group has
columns enough for them, however many they are. -/
theorem within_branchSpans {s : Span} {ws : List Nat} (fits : ws.sum ≤ s.width) :
    ∀ t ∈ branchSpans s ws, t.Within s := by
  intro t ht
  rw [branchSpans_eq] at ht
  refine ⟨start_le_of_mem_spansFrom ht, ?_⟩
  have stop_le := stop_le_of_mem_spansFrom ht
  have gaps_le := sum_distributeGaps_le (s.width - ws.sum) (ws.length - 1)
  unfold Span.stop at stop_le ⊢
  omega

/-- The last of two or more branches stops where the group does. -/
theorem stop_getLast?_branchSpans {s t : Span} {ws : List Nat} (two_le : 2 ≤ ws.length)
    (fits : ws.sum ≤ s.width) (ht : (branchSpans s ws).getLast? = some t) : t.stop = s.stop := by
  have gaps : 0 < ws.length - 1 := by omega
  rw [branchSpans_eq] at ht
  have := stop_getLast?_spansFrom (by rw [length_distributeGaps]; omega) ht
  rw [sum_distributeGaps _ gaps] at this
  unfold Span.stop at this ⊢
  omega

/-- **The spans of branches divide the span of the group** when the group has
columns enough for them. -/
theorem divides_branchSpans {s : Span} {ws : List Nat} (two_le : 2 ≤ ws.length)
    (width_pos : ∀ w ∈ ws, 0 < w) (fits : ws.sum ≤ s.width) :
    Span.Divides (branchSpans s ws) s where
  two_le := by rw [length_branchSpans]; exact two_le
  width_pos := width_pos_branchSpans width_pos
  within := within_branchSpans fits
  apart := pairwise_spansFrom _ _ _
  start_eq := by
    intro t ht
    cases ws with
    | nil => simp at two_le
    | cons w ws =>
      simp only [branchSpans, spansFrom, List.head?_cons, Option.some.injEq] at ht
      rw [← ht]
  stop_eq := fun t ht => stop_getLast?_branchSpans two_le fits ht

/-! ## Midpoints -/

/-- What a connector row goes by: the columns of two or more branches, from a
first to a last one, and the column of the junction between these. -/
structure Spreads (mids : List Nat) (centre first last : Nat) : Prop where
  head_eq : mids.head? = some first
  last_eq : mids.getLast? = some last
  first_lt : first < last
  le_centre : first ≤ centre
  centre_le : centre ≤ last
  bounds : ∀ m ∈ mids, first ≤ m ∧ m ≤ last

/-- The branches of a group are side by side, and so are their middles. -/
theorem Span.Divides.pairwise_midpoint {s : Span} {ts : List Span} (h : Divides ts s) :
    (ts.map midpoint).Pairwise (· < ·) := by
  rw [List.pairwise_map]
  refine h.apart.imp_of_mem fun {t u} ht hu hstop => ?_
  have before := midpoint_lt_stop (h.width_pos t ht)
  have after := u.start_le_midpoint
  omega

/-- **The middle of a group is between those of its outer branches.** -/
theorem Span.Divides.exists_spreads {s : Span} {ts : List Span} (h : Divides ts s) :
    ∃ first last, Spreads (ts.map midpoint) s.midpoint first last ∧ s.start ≤ first ∧
      last < s.stop := by
  obtain ⟨two_le, width_pos, within, apart, start_eq, stop_eq⟩ := h
  cases ts with
  | nil => simp at two_le
  | cons t ts =>
    rcases List.eq_nil_or_concat ts with rfl | ⟨init, u, hts⟩
    · simp at two_le
    · rw [List.concat_eq_append] at hts
      subst hts
      have ht : t.start = s.start := start_eq t rfl
      have hu : u.stop = s.stop :=
        stop_eq u (by rw [← List.cons_append]; exact List.getLast?_concat)
      have t_pos : 0 < t.width := width_pos t (by simp)
      have u_pos : 0 < u.width := width_pos u (by simp)
      obtain ⟨after, apart⟩ := List.pairwise_cons.mp apart
      have before := (List.pairwise_append.mp apart).2.2
      have htu : t.stop ≤ u.start := after u (by simp)
      -- the other branches start after the first one and stop before the last one
      have inner (v : Span) (hv : v ∈ init) :
          t.midpoint ≤ v.midpoint ∧ v.midpoint ≤ u.midpoint := by
        have v_pos : 0 < v.width := width_pos v (by simp [hv])
        have htv : t.stop ≤ v.start := after v (by simp [hv])
        have hvu : v.stop ≤ u.start := before v hv u (by simp)
        unfold stop at htv hvu
        unfold midpoint
        omega
      unfold stop at hu htu
      refine ⟨t.midpoint, u.midpoint, ⟨rfl, ?_, ?_, ?_, ?_, ?_⟩, ?_, ?_⟩
      · rw [← List.cons_append, List.map_append]
        exact List.getLast?_concat
      · unfold midpoint
        omega
      · unfold midpoint
        omega
      · unfold midpoint
        omega
      · intro m hm
        rw [List.map_cons, List.map_append, List.mem_cons, List.mem_append] at hm
        rcases hm with rfl | hm | hm
        · unfold midpoint
          omega
        · obtain ⟨v, hv, rfl⟩ := List.mem_map.mp hm
          exact inner v hv
        · rw [List.mem_singleton.mp hm]
          unfold midpoint
          omega
      · unfold midpoint
        omega
      · unfold midpoint stop
        omega

/-! ## The columns of a network -/

theorem branchColumns_eq_sum (bs : List (Chain R)) :
    branchColumns bs = (bs.map Chain.columns).sum := by
  induction bs with
  | nil => rfl
  | cons b bs ih => simp [branchColumns, ih]

/-- A chain needs a column. -/
theorem Chain.columns_pos (c : Chain R) : 0 < c.columns := by
  match c with
  | .last e => exact Nat.lt_of_lt_of_le Nat.one_pos (Nat.le_max_left _ _)
  | .link e c => exact Nat.lt_of_lt_of_le c.columns_pos (Nat.le_max_right _ _)

/-- A group that has a branch needs the columns of its branches, and no other one. -/
theorem Chain.columns_group {l : String} {v : Reading R} {bs : List (Chain R)} (h : bs ≠ []) :
    (last (.group l v bs)).columns = (bs.map columns).sum := by
  obtain ⟨b, hb⟩ := List.exists_mem_of_ne_nil bs h
  have sum_pos : 0 < (bs.map columns).sum :=
    List.sum_pos_iff_exists_pos_nat.mpr ⟨_, List.mem_map_of_mem hb, b.columns_pos⟩
  show max 1 (branchColumns bs) = _
  rw [branchColumns_eq_sum]
  omega

/-- The parts of a chain have columns enough when the chain has. -/
theorem columns_le_of_link {e : Element R} {c : Chain R} {n : Nat}
    (fits : (Chain.link e c).columns ≤ n) : (Chain.last e).columns ≤ n ∧ c.columns ≤ n := by
  have c_pos := c.columns_pos
  simp only [Chain.columns] at fits ⊢
  omega

/-- **The branches of a group have columns enough** when the group has. -/
theorem sum_columns_le {s : Span} {l : String} {v : Reading R} {bs : List (Chain R)}
    (fits : (Chain.last (.group l v bs)).columns ≤ s.width) :
    (bs.map Chain.columns).sum ≤ s.width := by
  rw [← branchColumns_eq_sum]
  exact Nat.le_trans (Nat.le_max_right _ _) fits

theorem pos_of_mem_map_columns {bs : List (Chain R)} : ∀ w ∈ bs.map Chain.columns, 0 < w := by
  intro w hw
  obtain ⟨b, -, rfl⟩ := List.mem_map.mp hw
  exact b.columns_pos

/-- The branches of a group divide any span that has columns enough for the group. -/
theorem divides_branches {s : Span} {l : String} {v : Reading R} {bs : List (Chain R)}
    (two_le : 2 ≤ bs.length) (fits : (Chain.last (.group l v bs)).columns ≤ s.width) :
    Span.Divides (branchSpans s (bs.map Chain.columns)) s := by
  refine divides_branchSpans ?_ pos_of_mem_map_columns (sum_columns_le fits)
  rw [List.length_map]
  exact two_le

/-- The middles of branches are in the columns of their group. -/
theorem midpoint_mem_branches {s : Span} {bs : List (Chain R)}
    (fits : (bs.map Chain.columns).sum ≤ s.width) :
    ∀ m ∈ (branchSpans s (bs.map Chain.columns)).map Span.midpoint, s.start ≤ m ∧ m < s.stop := by
  intro m hm
  obtain ⟨t, ht, rfl⟩ := List.mem_map.mp hm
  obtain ⟨hstart, hstop⟩ := within_branchSpans fits t ht
  have t_pos : 0 < t.width := width_pos_branchSpans pos_of_mem_map_columns t ht
  exact ⟨Nat.le_trans hstart t.start_le_midpoint,
    Nat.lt_of_lt_of_le (Span.midpoint_lt_stop t_pos) hstop⟩

end SeriesParallel
