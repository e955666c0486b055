import SeriesParallel.Network.Label
import SeriesParallel.Proofs.Network.Readings

/-!
# Network — what labelling changes

Labelling gives every component the next label of the sequence, in canonical
order, and changes nothing else: with its labels erased, a labelled network is
the network it was. So it does not matter whether a network is labelled before
or after it is solved.
-/

namespace SeriesParallel

variable {R : Type}

/-! ## Letters -/

theorem isUpper_of_mem_labelLetters {n : Nat} {c : Char} (h : c ∈ labelLetters n) :
    c.isUpper := by
  induction n using labelLetters.induct with
  | case1 => simp [labelLetters] at h
  | case2 n hn ih =>
    rw [labelLetters, if_neg hn, List.mem_cons] at h
    rcases h with rfl | h
    · have digit : ∀ k < 26, (Char.ofNat ('A'.toNat + k)).isUpper := by decide
      exact digit _ (Nat.mod_lt _ (by omega))
    · exact ih h

/-- **Labels are words of capital letters.** -/
theorem isUpper_of_mem_label {n : Nat} {c : Char} (h : c ∈ (label n).toList) : c.isUpper := by
  rw [label, String.toList_ofList, List.mem_reverse] at h
  exact isUpper_of_mem_labelLetters h

theorem length_label_pos {n : Nat} (h : 0 < n) : 0 < (label n).length := by
  rw [label, String.length_ofList, List.length_reverse, labelLetters, if_neg (by omega)]
  exact Nat.succ_pos _

/-! ## Networks without labels -/

mutual

/-- The element with every label erased. -/
def Element.unlabelled : Element R → Element R
  | .resistor _ v r => .resistor "" v r
  | .group _ v bs => .group "" v (unlabelledBranches bs)

/-- The chain with every label erased. -/
def Chain.unlabelled : Chain R → Chain R
  | .last e => .last e.unlabelled
  | .link e c => .link e.unlabelled c.unlabelled

/-- Branches with every label erased. -/
def unlabelledBranches : List (Chain R) → List (Chain R)
  | [] => []
  | b :: bs => b.unlabelled :: unlabelledBranches bs

end

theorem unlabelledBranches_eq_map (bs : List (Chain R)) :
    unlabelledBranches bs = bs.map Chain.unlabelled := by
  induction bs with
  | nil => rfl
  | cons b bs ih => simp [unlabelledBranches, ih]

/-- Erasing the labels works component by component. -/
theorem Chain.components_unlabelled (c : Chain R) :
    c.unlabelled.components = c.components.map Element.unlabelled := by
  induction c using Chain.inductionOn with
  | resistor l v r => simp [unlabelled, Element.unlabelled]
  | group l v bs ih =>
    simp only [unlabelled, Element.unlabelled, unlabelledBranches_eq_map, components_group,
      List.map_cons, List.flatMap_map, List.map_flatMap]
    congr 1
    exact List.flatMap_congr ih
  | link e c he hc =>
    simp only [unlabelled] at he
    simp [unlabelled, he, hc]

/-- Labels are erased once and for all. -/
theorem Chain.unlabelled_unlabelled (c : Chain R) : c.unlabelled.unlabelled = c.unlabelled := by
  induction c using Chain.inductionOn with
  | resistor l v r => rfl
  | group l v bs ih =>
    have inside : (bs.map unlabelled).map unlabelled = bs.map unlabelled := by
      rw [List.map_map]
      exact List.map_congr_left ih
    simp only [unlabelled, Element.unlabelled, unlabelledBranches_eq_map, inside]
  | link e c he hc =>
    simp only [unlabelled, last.injEq] at he
    simp only [unlabelled, he, hc]

/-! ## Labelling changes labels only -/

theorem unlabelledBranches_assignBranchLabels {bs : List (Chain R)}
    (h : ∀ b ∈ bs, ∀ s, (b.assignLabels s).1.unlabelled = b.unlabelled) (s : LabelSequence) :
    unlabelledBranches (assignBranchLabels s bs).1 = unlabelledBranches bs := by
  induction bs generalizing s with
  | nil => rfl
  | cons b bs ih =>
    have others := ih (fun b' hb => h b' (List.mem_cons_of_mem _ hb)) (b.assignLabels s).2
    rw [assignBranchLabels, unlabelledBranches, h b List.mem_cons_self, others,
      unlabelledBranches]

/-- **Labelling changes labels only.** -/
theorem Chain.unlabelled_assignLabels (c : Chain R) (s : LabelSequence) :
    (c.assignLabels s).1.unlabelled = c.unlabelled := by
  induction c using Chain.inductionOn generalizing s with
  | resistor l v r => rfl
  | group l v bs ih =>
    simp only [assignLabels, Element.assignLabels, unlabelled, Element.unlabelled,
      unlabelledBranches_assignBranchLabels ih]
  | link e c he hc =>
    have head := he s
    simp only [assignLabels, unlabelled, last.injEq] at head
    simp only [assignLabels, unlabelled, head, hc]

/-! ## Every component gets the next label -/

/-- The labels of components are the next ones of a sequence, and the sequence
goes on after them. -/
def LabelSequence.Labels (s s' : LabelSequence) (es : List (Element R)) : Prop :=
  es.map Element.label = (List.range' s.number es.length).map SeriesParallel.label ∧
    s'.number = s.number + es.length

namespace LabelSequence.Labels

variable {s s' s'' : LabelSequence} {e : Element R} {es fs : List (Element R)}

theorem nil (s : LabelSequence) : s.Labels s ([] : List (Element R)) := ⟨rfl, rfl⟩

theorem cons (he : e.label = s.next.1) (h : s.next.2.Labels s' es) : s.Labels s' (e :: es) := by
  obtain ⟨labels, number⟩ := h
  constructor
  · rw [List.map_cons, labels, he, List.length_cons, List.range'_succ, List.map_cons]
    rfl
  · rw [number, List.length_cons]
    show s.number + 1 + es.length = s.number + (es.length + 1)
    omega

theorem append (h : s.Labels s' es) (h' : s'.Labels s'' fs) : s.Labels s'' (es ++ fs) := by
  obtain ⟨labels, number⟩ := h
  obtain ⟨labels', number'⟩ := h'
  constructor
  · rw [List.map_append, labels, labels', number, ← List.map_append, List.range'_append_1,
      List.length_append]
  · rw [number', number, List.length_append, Nat.add_assoc]

end LabelSequence.Labels

theorem labels_assignBranchLabels {bs : List (Chain R)}
    (h : ∀ b ∈ bs, ∀ s, LabelSequence.Labels s (b.assignLabels s).2 (b.assignLabels s).1.components)
    (s : LabelSequence) :
    s.Labels (assignBranchLabels s bs).2
      ((assignBranchLabels s bs).1.flatMap Chain.components) := by
  induction bs generalizing s with
  | nil => exact .nil s
  | cons b bs ih =>
    have others := ih (fun b' hb => h b' (List.mem_cons_of_mem _ hb)) (b.assignLabels s).2
    exact (h b List.mem_cons_self s).append others

/-- **Labelling follows canonical order**: the components get the next labels,
one after another. -/
theorem Chain.labels_assignLabels (c : Chain R) (s : LabelSequence) :
    s.Labels (c.assignLabels s).2 (c.assignLabels s).1.components := by
  induction c using Chain.inductionOn generalizing s with
  | resistor l v r =>
    rw [assignLabels, Element.assignLabels, components_resistor]
    exact .cons rfl (.nil _)
  | group l v bs ih =>
    rw [assignLabels, Element.assignLabels, components_group]
    exact .cons rfl (labels_assignBranchLabels ih _)
  | link e c he hc =>
    rw [assignLabels, components_link]
    exact (he s).append (hc _)

/-! ## Solving does not look at labels -/

section

variable [Quantity R]

theorem Chain.resistances_unlabelled (c : Chain R) :
    c.unlabelled.resistances = c.resistances := by
  induction c using Chain.inductionOn with
  | resistor l v r => rfl
  | group l v bs ih =>
    have branches : (bs.map Chain.unlabelled).map (fun b => 1 / b.resistance)
        = bs.map fun b => 1 / b.resistance := by
      rw [List.map_map]
      refine List.map_congr_left fun b hb => ?_
      simp only [Function.comp_apply, resistance, ih b hb]
    simp only [unlabelled, Element.unlabelled, resistances, unlabelledBranches_eq_map,
      Element.resistance_group, branches]
  | link e c he hc => simp_all [unlabelled, resistances]

theorem Chain.resistance_unlabelled (c : Chain R) : c.unlabelled.resistance = c.resistance := by
  rw [resistance, resistances_unlabelled, resistance]

theorem Chain.resistance_assignLabels (c : Chain R) (s : LabelSequence) :
    (c.assignLabels s).1.resistance = c.resistance := by
  rw [← resistance_unlabelled, unlabelled_assignLabels, resistance_unlabelled]

theorem Element.resistance_assignLabels (e : Element R) (s : LabelSequence) :
    (e.assignLabels s).1.resistance = e.resistance := by
  have erased := Chain.unlabelled_assignLabels (.last e) s
  have before := Chain.resistances_unlabelled (.last e)
  have after := Chain.resistances_unlabelled ((Chain.last e).assignLabels s).1
  rw [erased, before] at after
  simpa [Chain.assignLabels, Chain.resistances] using after.symm

theorem assignBranchLabels_propagateBranches {bs : List (Chain R)}
    (h : ∀ b ∈ bs, ∀ current s, (b.propagate current).assignLabels s =
      ((b.assignLabels s).1.propagate current, (b.assignLabels s).2))
    (voltage : R) (s : LabelSequence) :
    assignBranchLabels s (propagateBranches voltage bs) =
      (propagateBranches voltage (assignBranchLabels s bs).1, (assignBranchLabels s bs).2) := by
  induction bs generalizing s with
  | nil => rfl
  | cons b bs ih =>
    have others := ih (fun b' hb => h b' (List.mem_cons_of_mem _ hb)) (b.assignLabels s).2
    simp only [propagateBranches, assignBranchLabels, h b List.mem_cons_self, others,
      Chain.resistance_assignLabels]

/-- **A network may be labelled before or after it is solved.** -/
theorem Chain.assignLabels_propagate (c : Chain R) (current : R) (s : LabelSequence) :
    (c.propagate current).assignLabels s =
      ((c.assignLabels s).1.propagate current, (c.assignLabels s).2) := by
  induction c using Chain.inductionOn generalizing current s with
  | resistor l v r => rfl
  | group l v bs ih =>
    have outer := Element.resistance_assignLabels (.group l v bs) s
    simp only [Element.assignLabels] at outer
    simp only [propagate, Element.propagate, assignLabels, Element.assignLabels,
      assignBranchLabels_propagateBranches ih, outer]
  | link e c he hc =>
    have head := he current s
    simp only [propagate, assignLabels, Prod.mk.injEq, last.injEq] at head
    simp only [propagate, assignLabels, head.1, head.2, hc]

/-! ## What labels and readings do not matter to -/

theorem forall_mem_iff_of_map_eq {α : Type} {es fs : List α} {f : α → α} {p : α → Prop}
    (hp : ∀ e, p (f e) ↔ p e) (h : es.map f = fs.map f) : (∀ e ∈ es, p e) ↔ ∀ e ∈ fs, p e := by
  have image (xs : List α) : (∀ e ∈ xs.map f, p e) ↔ ∀ e ∈ xs, p e := by
    rw [List.forall_mem_map]
    exact forall₂_congr fun e _ => hp e
  rw [← image es, h, image fs]

/-- **Solving and labelling keep what they do not change**: a property that
labels and readings do not matter to holds of the components afterwards if it
held before. -/
theorem Chain.forall_components_solved {p : Element R → Prop}
    (label : ∀ e, p e.unlabelled ↔ p e) (reading : ∀ e, p e.unsolved ↔ p e)
    (c : Chain R) (current : R) (s : LabelSequence) :
    (∀ e ∈ ((c.propagate current).assignLabels s).1.components, p e) ↔ ∀ e ∈ c.components, p e := by
  have labelled : (∀ e ∈ ((c.propagate current).assignLabels s).1.components, p e) ↔
      ∀ e ∈ (c.propagate current).components, p e := by
    apply forall_mem_iff_of_map_eq label
    rw [← components_unlabelled, unlabelled_assignLabels, components_unlabelled]
  have solved : (∀ e ∈ (c.propagate current).components, p e) ↔ ∀ e ∈ c.components, p e := by
    apply forall_mem_iff_of_map_eq reading
    rw [← components_unsolved, unsolved_propagate, components_unsolved]
  exact labelled.trans solved

end

end SeriesParallel
