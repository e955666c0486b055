import SeriesParallel.Proofs.Network.Canonical
import SeriesParallel.Proofs.Schematic.Columns
import SeriesParallel.Proofs.Schematic.Filling

/-!
# Schematic — the width of a canonical form

Normalizing a network does not change how wide it is drawn. A chain is as wide
as its widest element, a group as its branches side by side. So a branch may
stand in the place of its group, and spliced branches take the columns that
their group took among the other branches. An empty group takes a column as a
branch, and none once it is spliced.
-/

namespace SeriesParallel

variable {R : Type}

namespace Chain

/-! ## Chains in series -/

theorem columns_link (e : Element R) (c : Chain R) :
    (link e c).columns = max (last e).columns c.columns := by
  have c_pos := c.columns_pos
  show max e.columns c.columns = max (max 1 e.columns) c.columns
  omega

/-- **Chains in series are as wide as the wider one.** -/
theorem columns_append (c d : Chain R) : (c ++ d).columns = max c.columns d.columns := by
  match c with
  | last e => exact columns_link e d
  | link e c =>
    rw [link_append, columns_link, columns_append c d, columns_link, Nat.max_assoc]

/-! ## Collapsing -/

theorem columns_one_branch (l : String) (v : Reading R) (b : Chain R) :
    (last (.group l v [b])).columns = b.columns := by
  rw [columns_group (List.cons_ne_nil b []), List.map_singleton, List.sum_singleton]

/-- **Collapsing keeps the columns** of any network. -/
theorem columns_collapse (c : Chain R) : c.collapse.columns = c.columns := by
  induction c using Chain.inductionOn with
  | resistor l v r => rfl
  | group l v bs ih =>
    by_cases hone : bs.length = 1
    · obtain ⟨b, rfl⟩ := List.length_eq_one_iff.mp hone
      rw [columns_one_branch]
      exact ih b List.mem_cons_self
    · have branches : (bs.map collapse).map columns = bs.map columns := by
        rw [List.map_map]
        exact List.map_congr_left ih
      show (Element.group l v bs).collapse.columns = max 1 (branchColumns bs)
      rw [Element.collapse_group l v hone, collapseBranches_eq_map]
      show max 1 (branchColumns (bs.map collapse)) = _
      rw [branchColumns_eq_sum, branchColumns_eq_sum, branches]
  | link e c he hc =>
    have head : e.collapse.columns = (last e).columns := he
    rw [collapse, columns_append, head, hc, columns_link]

/-- Collapsing leaves no group empty that was not. -/
theorem NoEmptyGroup.collapse {c : Chain R} (h : c.NoEmptyGroup) : c.collapse.NoEmptyGroup := by
  induction c using Chain.inductionOn with
  | resistor l v r => exact noEmptyGroup_resistor l v r
  | group l v bs ih =>
    obtain ⟨nonempty, branches⟩ := h.group
    by_cases hone : bs.length = 1
    · obtain ⟨b, rfl⟩ := List.length_eq_one_iff.mp hone
      exact ih b List.mem_cons_self (branches b List.mem_cons_self)
    · rw [Chain.collapse, Element.collapse_group l v hone, collapseBranches_eq_map]
      refine noEmptyGroup_group (mt List.map_eq_nil_iff.mp nonempty) fun d hd => ?_
      obtain ⟨b, hb, rfl⟩ := List.mem_map.mp hd
      exact ih b hb (branches b hb)
  | link e c he hc =>
    obtain ⟨head, rest⟩ := h.link
    exact noEmptyGroup_append (he head) (hc rest)

/-! ## Flattening -/

/-- Flattening leaves a branch something to stand for, if no group is empty. -/
theorem NoEmptyGroup.spliced_flatten_ne_nil {c : Chain R} (h : c.NoEmptyGroup) :
    c.flatten.spliced ≠ [] := by
  induction c using Chain.inductionOn with
  | resistor l v r => exact List.cons_ne_nil _ _
  | group l v bs ih =>
    obtain ⟨nonempty, branches⟩ := h.group
    obtain ⟨b, hb⟩ := List.exists_mem_of_ne_nil bs nonempty
    show flattenBranches bs ≠ []
    rw [flattenBranches_eq_flatMap]
    exact fun hnil => ih b hb (branches b hb) (List.flatMap_eq_nil_iff.mp hnil b hb)
  | link e c he hc => exact List.cons_ne_nil _ _

/-- The branches that a branch stands for are as wide as it, if there are any. -/
theorem sum_columns_spliced {c : Chain R} (h : c.spliced ≠ []) :
    (c.spliced.map columns).sum = c.columns := by
  match c with
  | last (.resistor l v r) => exact List.sum_singleton
  | last (.group l v bs) => exact (columns_group h).symm
  | link e c => exact List.sum_singleton

/-- **Flattening keeps the columns** of a network without empty groups. -/
theorem NoEmptyGroup.columns_flatten {c : Chain R} (h : c.NoEmptyGroup) :
    c.flatten.columns = c.columns := by
  induction c using Chain.inductionOn with
  | resistor l v r => rfl
  | group l v bs ih =>
    obtain ⟨-, branches⟩ := h.group
    have spliced : (bs.map fun b => (b.flatten.spliced.map columns).sum) = bs.map columns := by
      refine List.map_congr_left fun b hb => ?_
      rw [sum_columns_spliced (branches b hb).spliced_flatten_ne_nil, ih b hb (branches b hb)]
    show max 1 (branchColumns (flattenBranches bs)) = max 1 (branchColumns bs)
    rw [branchColumns_eq_sum, branchColumns_eq_sum, flattenBranches_eq_flatMap, List.map_flatMap,
      List.flatMap_def, List.sum_flatten, List.map_map]
    exact congrArg (fun widths => max 1 (List.sum widths)) spliced
  | link e c he hc =>
    obtain ⟨head, rest⟩ := h.link
    have head : (last e.flatten).columns = (last e).columns := he head
    rw [flatten, columns_link, head, hc rest, columns_link]

end Chain

/-! ## Normalizing -/

/-- **Normalization does not change the width of a drawing**, if no group is
empty: neither of the two rewrites does, nor both together. -/
theorem rewriting_keeps_columns {c : Chain R} (h : c.NoEmptyGroup) :
    c.collapse.columns = c.columns ∧ c.flatten.columns = c.columns ∧
      c.normalize.columns = c.columns ∧
      c.normalize.layout.grid.columns = c.layout.grid.columns := by
  have normal : c.normalize.columns = c.columns := by
    rw [Chain.normalize, h.collapse.columns_flatten, Chain.columns_collapse]
  refine ⟨c.columns_collapse, h.columns_flatten, normal, ?_⟩
  rw [Chain.columns_grid_layout, Chain.columns_grid_layout, normal]

/-- A pair of resistors in a group of its own, beside a third one and above two more. -/
def wrappedPair : Chain Nat :=
  .link (.parallel [
      .last (.parallel [.last (.parallel [.last (.ofResistance 1), .last (.ofResistance 2)])]),
      .last (.ofResistance 3)])
    (.last (.parallel [.last (.ofResistance 4), .last (.ofResistance 5)]))

theorem rewriting_keeps_columns_wrappedPair :
    (wrappedPair.NoEmptyGroup ∧ ¬wrappedPair.isCanonical) ∧ wrappedPair.collapse.columns = 3 ∧
      wrappedPair.flatten.columns = 3 ∧ wrappedPair.normalize.columns = 3 ∧
      wrappedPair.normalize.layout.grid.columns = 3 := by
  have nonempty : wrappedPair.NoEmptyGroup := by
    simp [Chain.NoEmptyGroup, wrappedPair, Element.parallel, Element.ofResistance,
      Element.branches, Element.isResistor]
  have wrapped : ¬wrappedPair.isCanonical := by decide +kernel
  have width : wrappedPair.columns = 3 := by decide
  obtain ⟨collapsed, flattened, normal, drawn⟩ := rewriting_keeps_columns nonempty
  rw [Chain.columns_grid_layout wrappedPair, width] at drawn
  exact ⟨⟨nonempty, wrapped⟩, collapsed.trans width, flattened.trans width, normal.trans width,
    drawn⟩

/-- An empty group takes a column as a branch, and none once it is spliced. -/
example : let c : Chain Nat := .last (.parallel [.last (.ofResistance 1), .last (.parallel [])])
    c.columns = 2 ∧ c.normalize.columns = 1 := by decide

end SeriesParallel
