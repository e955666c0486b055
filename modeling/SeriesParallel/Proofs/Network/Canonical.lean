import Mathlib.Algebra.BigOperators.Group.List.Basic
import SeriesParallel.Proofs.Network.Netlist
import SeriesParallel.Proofs.Network.NormalForm
import SeriesParallel.Proofs.Network.Sound

/-!
# Network — canonical networks

Normalizing a canonical network gives it back as it is, with all its labels and
readings. What normalization leads to is canonical if every group still has two
branches. This is so when no group is empty to begin with: an empty group can
be spliced away, and leave a group with one branch behind.
-/

namespace SeriesParallel

variable {R : Type}

namespace Chain

/-! ## Canonical networks stay as they are -/

/-- A branch that is not a lone group stands for itself. -/
theorem spliced_of_not_isLoneGroup {c : Chain R} (h : ¬c.isLoneGroup) : c.spliced = [c] := by
  match c with
  | last (.resistor l v r) => rfl
  | last (.group l v bs) => exact absurd rfl h
  | link e c => rfl

theorem isCanonical_group {l : String} {v : Reading R} {bs : List (Chain R)} :
    (last (.group l v bs)).isCanonical ↔
      bs.length ≠ 1 ∧ ∀ b ∈ bs, ¬b.isLoneGroup ∧ b.isCanonical := by
  simp only [isCanonical_iff, components_group, List.mem_cons, List.mem_flatMap]
  constructor
  · intro h
    obtain ⟨not_one, not_lone⟩ := Element.isSettled_group_iff.mp (h (.group l v bs) (.inl rfl))
    exact ⟨not_one, fun b hb => ⟨not_lone b hb, fun e he => h e (.inr ⟨b, hb, he⟩)⟩⟩
  · intro h e he
    obtain ⟨not_one, branches⟩ := h
    rcases he with rfl | ⟨b, hb, he⟩
    · exact Element.isSettled_group_iff.mpr ⟨not_one, fun b hb => (branches b hb).1⟩
    · exact (branches b hb).2 e he

theorem isCanonical_link {e : Element R} {c : Chain R} :
    (link e c).isCanonical ↔ (last e).isCanonical ∧ c.isCanonical := by
  simp only [isCanonical_iff, components_link, List.forall_mem_append]

/-- **Normalization leaves a canonical network as it is.** -/
theorem normalize_of_isCanonical {c : Chain R} (h : c.isCanonical) : c.normalize = c := by
  induction c using Chain.inductionOn with
  | resistor l v r => rfl
  | group l v bs ih =>
    obtain ⟨not_one, branches⟩ := isCanonical_group.mp h
    have kept : ∀ b ∈ bs, b.normalize.spliced = [b] := by
      intro b hb
      rw [ih b hb (branches b hb).2, spliced_of_not_isLoneGroup (branches b hb).1]
    rw [normalize_group l v not_one, List.flatMap_congr kept, List.flatMap_singleton']
  | link e c he hc =>
    obtain ⟨head, rest⟩ := isCanonical_link.mp h
    rw [normalize_link, he head, hc rest, last_append]

/-! ## Normalization leads to canonical networks -/

theorem noEmptyGroup_resistor (l : String) (v : Reading R) (r : R) :
    (last (.resistor l v r)).NoEmptyGroup := by
  intro e he _
  rw [components_resistor, List.mem_singleton] at he
  exact he ▸ rfl

theorem noEmptyGroup_group {l : String} {v : Reading R} {bs : List (Chain R)} (nonempty : bs ≠ [])
    (h : ∀ b ∈ bs, b.NoEmptyGroup) : (last (.group l v bs)).NoEmptyGroup := by
  intro e he hnil
  rw [components_group, List.mem_cons, List.mem_flatMap] at he
  rcases he with rfl | ⟨b, hb, he⟩
  · exact absurd hnil nonempty
  · exact h b hb e he hnil

theorem noEmptyGroup_append {c d : Chain R} (hc : c.NoEmptyGroup) (hd : d.NoEmptyGroup) :
    (c ++ d).NoEmptyGroup := by
  intro e he
  rw [components_append, List.mem_append] at he
  exact he.elim (hc e) (hd e)

theorem noEmptyGroup_link {e : Element R} {c : Chain R} (he : (last e).NoEmptyGroup)
    (hc : c.NoEmptyGroup) : (link e c).NoEmptyGroup := noEmptyGroup_append he hc

theorem NoEmptyGroup.group {l : String} {v : Reading R} {bs : List (Chain R)}
    (h : (last (.group l v bs)).NoEmptyGroup) : bs ≠ [] ∧ ∀ b ∈ bs, b.NoEmptyGroup := by
  refine ⟨fun hnil => ?_, fun b hb e he => h e (mem_components_group hb he)⟩
  refine absurd (h (.group l v bs) ?_ hnil) Bool.false_ne_true
  rw [components_group]
  exact List.mem_cons_self

theorem NoEmptyGroup.link {e : Element R} {c : Chain R} (h : (link e c).NoEmptyGroup) :
    (last e).NoEmptyGroup ∧ c.NoEmptyGroup := by
  simpa only [NoEmptyGroup, components_link, List.forall_mem_append] using h

/-- Where every group branches, none is empty. -/
theorem Branching.noEmptyGroup {c : Chain R} (h : c.Branching) : c.NoEmptyGroup := by
  intro e he hnil
  cases hgroup : e.isResistor with
  | true => rfl
  | false =>
    have two_le := h e he hgroup
    simp [hnil] at two_le

/-- A branch stands for a branch at least, if its groups branch. -/
theorem Branching.spliced_ne_nil {c : Chain R} (h : c.Branching) : c.spliced ≠ [] := by
  match c with
  | .last (.resistor l v r) => exact List.cons_ne_nil _ _
  | .last (.group l v bs) =>
    exact List.ne_nil_of_length_pos (Nat.lt_of_lt_of_le Nat.two_pos h.two_le)
  | .link e c => exact List.cons_ne_nil _ _

/-- **Every group of a canonical form branches**, if no group of the network is
empty: a group keeps as many branches as it has, or gets more. -/
theorem NoEmptyGroup.branching_normalize {c : Chain R} (h : c.NoEmptyGroup) :
    c.normalize.Branching := by
  induction c using Chain.inductionOn with
  | resistor l v r =>
    intro e he hgroup
    rw [show (last (.resistor l v r)).normalize = last (.resistor l v r) from rfl,
      components_resistor, List.mem_singleton] at he
    subst he
    exact absurd hgroup Bool.noConfusion
  | group l v bs ih =>
    obtain ⟨not_nil, branches⟩ := h.group
    have branching : ∀ b ∈ bs, b.normalize.Branching := fun b hb => ih b hb (branches b hb)
    by_cases hone : bs.length = 1
    · obtain ⟨b, rfl⟩ := List.length_eq_one_iff.mp hone
      rw [normalize_one_branch]
      exact branching b List.mem_cons_self
    · have two_le : 2 ≤ bs.length := by
        have := List.length_pos_iff.mpr not_nil
        omega
      rw [normalize_group l v hone]
      intro e he hgroup
      rw [components_group, List.mem_cons] at he
      rcases he with rfl | he
      · have splices : ∀ n ∈ bs.map fun b => b.normalize.spliced.length, 1 ≤ n := by
          intro n hn
          obtain ⟨b, hb, rfl⟩ := List.mem_map.mp hn
          exact List.length_pos_iff.mpr (branching b hb).spliced_ne_nil
        have as_many := List.length_le_sum_of_one_le _ splices
        rw [List.length_map, ← List.length_flatMap] at as_many
        exact Nat.le_trans two_le as_many
      · obtain ⟨x, hx, he⟩ := List.mem_flatMap.mp he
        obtain ⟨b, hb, hx⟩ := List.mem_flatMap.mp hx
        exact branching b hb e (mem_components_of_mem_spliced hx he) hgroup
  | link e c he hc =>
    obtain ⟨head, rest⟩ := h.link
    rw [normalize_link]
    intro x hx
    rw [components_append] at hx
    exact (List.mem_append.mp hx).elim (he head x) (hc rest x)

theorem Sound.branching [Quantity R] {c : Chain R} (h : c.Sound) : c.Branching := by
  intro e he hgroup
  cases e with
  | resistor l v r => exact absurd hgroup Bool.noConfusion
  | group l v bs => exact (h _ he).1

/-- A canonical form is canonical where every group branches: none of its
branches is a lone group. -/
theorem isCanonical_normalize_of_branching {c : Chain R} (h : c.normalize.Branching) :
    c.normalize.isCanonical := by
  rw [isCanonical_iff]
  intro e he
  cases e with
  | resistor l v r => rfl
  | group l v bs =>
    have two_le : 2 ≤ bs.length := h _ he rfl
    exact Element.isSettled_group_iff.mpr
      ⟨by omega, c.not_isLoneGroup_normalize (.group l v bs) he⟩

end Chain

/-- **The canonical networks are the fixed points of normalization.** Any
canonical network, whatever its labels and readings, is left as it is. A
network without empty groups has a canonical form that is canonical and has no
empty groups either; it is canonical itself exactly when it is its own
canonical form, and normalizing a second time changes nothing. -/
theorem normalize_eq_self_iff_isCanonical (c : Chain R) :
    (c.isCanonical → c.normalize = c) ∧
    (c.NoEmptyGroup →
      (c.normalize.isCanonical ∧ c.normalize.NoEmptyGroup) ∧
      (c.normalize = c ↔ c.isCanonical) ∧
      c.normalize.normalize = c.normalize) := by
  refine ⟨Chain.normalize_of_isCanonical, fun nonempty => ?_⟩
  have branching := nonempty.branching_normalize
  have canonical := Chain.isCanonical_normalize_of_branching branching
  refine ⟨⟨canonical, branching.noEmptyGroup⟩, ⟨fun fixed => ?_, Chain.normalize_of_isCanonical⟩,
    Chain.normalize_of_isCanonical canonical⟩
  rw [fixed] at canonical
  exact canonical

/-- Both rewrites apply to a labelled and solved group: B is a group of one
branch, and E is a branch on its own. -/
def wrappedBesideGroup : Chain Nat :=
  .last (.group "A" ⟨6, 4, 24⟩ [
    .last (.group "B" ⟨6, 2, 12⟩ [
      .link (.resistor "C" ⟨2, 2, 4⟩ 1) (.last (.resistor "D" ⟨4, 2, 8⟩ 2))]),
    .last (.group "E" ⟨6, 2, 12⟩ [
      .last (.resistor "F" ⟨6, 1, 6⟩ 6), .last (.resistor "G" ⟨6, 1, 6⟩ 6)])])

/-- Canonical with an empty group: nothing applies to it. -/
def emptyGroupInSeries : Chain Nat :=
  .link (.group "A" ⟨1, 2, 3⟩ []) (.last (.resistor "B" ⟨4, 5, 6⟩ 7))

theorem normalize_eq_self_iff_isCanonical_wrappedBesideGroup :
    (emptyGroupInSeries.isCanonical ∧ emptyGroupInSeries.normalize = emptyGroupInSeries) ∧
      wrappedBesideGroup.NoEmptyGroup ∧
      (wrappedBesideGroup.normalize.isCanonical ∧ wrappedBesideGroup.normalize.NoEmptyGroup) ∧
      (wrappedBesideGroup.normalize ≠ wrappedBesideGroup ∧ ¬wrappedBesideGroup.isCanonical) ∧
      wrappedBesideGroup.normalize.normalize = wrappedBesideGroup.normalize := by
  have canonical : emptyGroupInSeries.isCanonical := by
    simp [Chain.isCanonical_iff, emptyGroupInSeries, Element.isSettled]
  have kept := (normalize_eq_self_iff_isCanonical emptyGroupInSeries).1 canonical
  have nonempty : wrappedBesideGroup.NoEmptyGroup := by
    simp [Chain.NoEmptyGroup, wrappedBesideGroup, Element.branches, Element.isResistor]
  obtain ⟨normal, fixed, again⟩ := (normalize_eq_self_iff_isCanonical wrappedBesideGroup).2 nonempty
  have shrinks : wrappedBesideGroup.normalize.size ≠ wrappedBesideGroup.size := by decide
  have changes : wrappedBesideGroup.normalize ≠ wrappedBesideGroup :=
    fun h => shrinks (congrArg Chain.size h)
  exact ⟨⟨canonical, kept⟩, nonempty, normal, ⟨changes, fun h => changes (fixed.mpr h)⟩, again⟩

end SeriesParallel
