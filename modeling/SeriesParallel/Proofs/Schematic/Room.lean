import Mathlib.Data.List.Infix
import Mathlib.Logic.Relation
import SeriesParallel.Proofs.Schematic.Packing

/-!
# Schematic — room for every part

Laying out a chain lays out its parts, each in a span and from a row on: the
elements of the chain one below the other, the branches of a group side by
side. These **tasks** are followed from the whole network down. Every one of
them has columns enough, and what is placed for it is a part of the layout.
-/

namespace SeriesParallel

variable {R : Type}

/-! ## Tasks -/

/-- A chain to lay out in a span from a row on. -/
structure Task (R : Type) where
  chain : Chain R
  span : Span
  row : Nat

/-- What is placed for a task. -/
def Task.placements (t : Task R) : List Placement := (t.chain.place t.span t.row).1

/-- The span of a task has columns enough for its chain. -/
def Task.HasRoom (t : Task R) : Prop := t.chain.columns ≤ t.span.width

/-- The task to lay out a whole network, between the wires to the supply. -/
def Chain.task (c : Chain R) : Task R := ⟨c, ⟨0, c.columns⟩, 1⟩

/-- The tasks that a task goes on to: the head of a chain, the rest of it below
the head, each branch of a group in the span it is given. -/
inductive Task.Calls : Task R → Task R → Prop where
  | head (e : Element R) (c : Chain R) (s : Span) (row : Nat) :
      Calls ⟨.link e c, s, row⟩ ⟨.last e, s, row⟩
  | rest (e : Element R) (c : Chain R) (s : Span) (row : Nat) :
      Calls ⟨.link e c, s, row⟩ ⟨c, s, (e.place s row).2⟩
  | branch (l : String) (v : Reading R) (bs : List (Chain R)) (s : Span) (row : Nat) {b : Chain R}
      {t : Span} (h : (b, t) ∈ bs.zip (branchSpans s (bs.map Chain.columns))) :
      Calls ⟨.last (.group l v bs), s, row⟩ ⟨b, t, row + 1⟩

/-- A task that another one goes on to, at any depth. -/
abbrev Task.Reaches : Task R → Task R → Prop := Relation.ReflTransGen Task.Calls

/-- Every branch is given a span as wide as it needs. -/
theorem width_of_mem_zip {s : Span} {bs : List (Chain R)} {b : Chain R} {t : Span}
    (h : (b, t) ∈ bs.zip (branchSpans s (bs.map Chain.columns))) : t.width = b.columns := by
  obtain ⟨i, hi⟩ := List.mem_iff_getElem?.mp h
  obtain ⟨hb, ht⟩ := List.getElem?_zip_eq_some.mp hi
  have widths := congrArg (·[i]?) (map_width_branchSpans s (bs.map Chain.columns))
  simpa only [List.getElem?_map, hb, ht, Option.map_some, Option.some.injEq] using widths

/-- What is placed for a branch is a part of what is placed for all branches,
and the row after it is one of theirs. -/
theorem branch_of_mem_zip {row : Nat} {bs : List (Chain R)} {ts : List Span} {b : Chain R}
    {t : Span} (h : (b, t) ∈ bs.zip ts) :
    (b.place t row).1 <:+: (placeBranches row bs ts).1 ∧
      (b.place t row).2 ∈ (placeBranches row bs ts).2 := by
  induction bs generalizing ts with
  | nil => simp at h
  | cons b' bs ih =>
    cases ts with
    | nil => simp at h
    | cons t' ts =>
      show _ <:+: (b'.place t' row).1 ++ (placeBranches row bs ts).1 ∧
        _ ∈ (b'.place t' row).2 :: (placeBranches row bs ts).2
      rcases List.mem_cons.mp h with heq | h
      · cases heq
        exact ⟨(List.prefix_append _ _).isInfix, List.mem_cons_self⟩
      · obtain ⟨part, next⟩ := ih h
        exact ⟨part.trans (List.suffix_append _ _).isInfix, List.mem_cons_of_mem _ next⟩

/-- A branch ends above the row where the group merges. -/
theorem place_le_mergeRow {s : Span} {row : Nat} {bs : List (Chain R)} {b : Chain R} {t : Span}
    (h : (b, t) ∈ bs.zip (branchSpans s (bs.map Chain.columns))) :
    (b.place t (row + 1)).2 ≤ mergeRow s row bs :=
  (le_foldl_max _ _).2 _ (branch_of_mem_zip h).2

namespace Task

variable {t u : Task R}

/-- **A task with room goes on to tasks with room.** -/
theorem Calls.hasRoom (h : t.Calls u) (ht : t.HasRoom) : u.HasRoom := by
  cases h with
  | head e c s row => exact (columns_le_of_link ht).1
  | rest e c s row => exact (columns_le_of_link ht).2
  | branch l v bs s row h => exact Nat.le_of_eq (width_of_mem_zip h).symm

/-- **What is placed for a task includes what is placed for those it goes on
to**, in one piece. -/
theorem Calls.isInfix (h : t.Calls u) : u.placements <:+: t.placements := by
  cases h with
  | head e c s row => exact (List.prefix_append _ _).isInfix
  | rest e c s row => exact (List.suffix_append _ _).isInfix
  | branch l v bs s row h =>
    -- the branches stand between the split row and the wires that extend them
    have behind := (List.suffix_append (connectorRow .split row s.midpoint
      ((branchSpans s (bs.map Chain.columns)).map Span.midpoint)) (placeBranches (row + 1) bs
      (branchSpans s (bs.map Chain.columns))).1).isInfix
    refine ((branch_of_mem_zip h).1.trans behind).trans ?_
    exact (List.prefix_append _ _).isInfix.trans (List.prefix_append _ _).isInfix

theorem Reaches.hasRoom (h : t.Reaches u) (ht : t.HasRoom) : u.HasRoom := by
  induction h with
  | refl => exact ht
  | tail _ call ih => exact call.hasRoom ih

theorem Reaches.isInfix (h : t.Reaches u) : u.placements <:+: t.placements := by
  induction h with
  | refl => exact List.infix_rfl
  | tail _ call ih => exact call.isInfix.trans ih

/-- What is placed for the network is a part of the layout. -/
theorem isInfix_layout (c : Chain R) : c.task.placements <:+: c.layout.placements :=
  List.infix_append [_] _ _

end Task

/-! ## The layout -/

/-- **A layout keeps within its columns and overwrites nothing**, whatever the
network. No cell is put beside the grid, and no two at one place. Every group
that is laid out on the way has columns enough for its branches, whose spans
are side by side; and what is placed for a branch is a part of the layout that
keeps to the columns of its span, and to the rows between the split row and the
merge row of the group. -/
theorem layout_keeps_room (c : Chain R) :
    (∀ p ∈ c.layout.placements, p.column < c.layout.grid.columns) ∧
    c.layout.placements.Pairwise Placement.Apart ∧
    ∀ (l : String) (v : Reading R) (bs : List (Chain R)) (s : Span) (row : Nat),
      c.task.Reaches ⟨.last (.group l v bs), s, row⟩ →
      (bs.map Chain.columns).sum ≤ s.width ∧
      (branchSpans s (bs.map Chain.columns)).Pairwise (fun t u => t.stop ≤ u.start) ∧
      ∀ b t, (b, t) ∈ bs.zip (branchSpans s (bs.map Chain.columns)) →
        (b.place t (row + 1)).1 <:+: c.layout.placements ∧
        ∀ p ∈ (b.place t (row + 1)).1, t.start ≤ p.column ∧ p.column < t.stop ∧
          row < p.row ∧ p.row < mergeRow s row bs := by
  have packed := c.packed_layout
  refine ⟨fun p hp => ?_, packed.apart, fun l v bs s row h => ⟨?_, pairwise_spansFrom _ _ _,
    fun b t hbt => ⟨?_, fun p hp => ?_⟩⟩⟩
  · rw [c.columns_grid_layout]
    exact (packed.inside p hp).2.1
  · have room : Task.HasRoom _ := h.hasRoom (Nat.le_refl c.columns)
    exact sum_columns_le room
  · have branch : c.task.Reaches ⟨b, t, row + 1⟩ := h.tail (.branch l v bs s row hbt)
    exact (Task.Reaches.isInfix branch).trans (Task.isInfix_layout c)
  · have inside := (b.packs t (row + 1) (Nat.le_of_eq (width_of_mem_zip hbt).symm)).inside p hp
    have above : (b.place t (row + 1)).2 ≤ mergeRow s row bs := place_le_mergeRow hbt
    omega

/-- Two resistors side by side. -/
def pair : Chain Nat := .last (.parallel [.last (.ofResistance 1), .last (.ofResistance 2)])

/-- A resistor, a pair in a group of its own and an empty group side by side. -/
def uneven : Element Nat :=
  .parallel [.last (.ofResistance 3), .last (.parallel [pair]), .last (.parallel [])]

/-- They leave one of the columns spare that the five resistors behind them need. -/
def spareColumn : Chain Nat :=
  .link uneven (.last (.parallel (List.replicate 5 (.last (.ofResistance 4)))))

/-- The pair is laid out behind the spare column, from the third row on. -/
theorem layout_keeps_room_spareColumn :
    spareColumn.task.Reaches ⟨pair, ⟨2, 2⟩, 3⟩ ∧
      ∀ p ∈ ((Chain.last (Element.ofResistance 2)).place ⟨3, 1⟩ 4).1,
        3 ≤ p.column ∧ p.column < 4 ∧ 3 < p.row ∧ p.row < 5 := by
  have second : Task.Calls ⟨.last uneven, ⟨0, 5⟩, 1⟩ ⟨.last (.parallel [pair]), ⟨2, 2⟩, 2⟩ :=
    .branch _ _ _ _ _ (.tail _ (.head _))
  have only : Task.Calls ⟨.last (.parallel [pair]), ⟨2, 2⟩, 2⟩ ⟨pair, ⟨2, 2⟩, 3⟩ :=
    .branch _ _ _ _ _ (.head _)
  have reaches : spareColumn.task.Reaches ⟨pair, ⟨2, 2⟩, 3⟩ :=
    .tail (.tail (.single (.head uneven _ _ 1)) second) only
  obtain ⟨-, -, branches⟩ := (layout_keeps_room spareColumn).2.2 _ _ _ _ _ reaches
  exact ⟨reaches, (branches (.last (.ofResistance 2)) ⟨3, 1⟩ (.tail _ (.head _))).2⟩

end SeriesParallel
