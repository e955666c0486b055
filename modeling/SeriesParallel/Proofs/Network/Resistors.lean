import SeriesParallel.Proofs.Network.Labels
import SeriesParallel.Proofs.Network.NormalForm

/-!
# Network — the resistors of a network

Whatever is rewritten, the resistors stay: collapsing and flattening keep each
of them with its label, its reading and its resistance, in canonical order.
Solving and labelling keep their resistances.
-/

namespace SeriesParallel

variable {R : Type}

namespace Chain

/-! ## Rewriting keeps the resistors -/

/-- **Collapsing keeps the resistors**: the branch of a one-branch group stands
where the group stood. -/
theorem resistors_collapse (c : Chain R) : c.collapse.resistors = c.resistors := by
  induction c using Chain.inductionOn with
  | resistor l v r => rfl
  | group l v bs ih =>
    by_cases hone : bs.length = 1
    · obtain ⟨b, rfl⟩ := List.length_eq_one_iff.mp hone
      rw [resistors_group, List.flatMap_singleton]
      exact ih b List.mem_cons_self
    · rw [collapse, Element.collapse_group l v hone, resistors_group, resistors_group,
        collapseBranches_eq_map, List.flatMap_map]
      exact List.flatMap_congr ih
  | link e c he hc =>
    rw [collapse, resistors_append, resistors_link, hc]
    exact congrArg (· ++ c.resistors) he

/-- The branches that a branch stands for have its resistors. -/
theorem resistors_spliced (c : Chain R) : c.spliced.flatMap resistors = c.resistors := by
  match c with
  | last (.resistor l v r) => exact List.flatMap_singleton ..
  | last (.group l v bs) => exact (resistors_group l v bs).symm
  | link e c => exact List.flatMap_singleton ..

/-- **Flattening keeps the resistors**: spliced branches stand between the
branches that stood around their group. -/
theorem resistors_flatten (c : Chain R) : c.flatten.resistors = c.resistors := by
  induction c using Chain.inductionOn with
  | resistor l v r => rfl
  | group l v bs ih =>
    rw [flatten, Element.flatten, resistors_group, resistors_group, flattenBranches_eq_flatMap,
      List.flatMap_assoc]
    refine List.flatMap_congr fun b hb => ?_
    rw [resistors_spliced, ih b hb]
  | link e c he hc =>
    rw [flatten, resistors_link, resistors_link, hc]
    exact congrArg (· ++ c.resistors) he

theorem resistors_normalize (c : Chain R) : c.normalize.resistors = c.resistors := by
  rw [normalize, resistors_flatten, resistors_collapse]

end Chain

/-! ## Their resistances -/

/-- The resistance that a resistor is rated at; a group has no rating. -/
def Element.rating? : Element R → Option R
  | resistor _ _ r => some r
  | group .. => none

namespace Chain

/-- The resistances of the resistors, in canonical order. -/
def ratings (c : Chain R) : List R := c.components.filterMap Element.rating?

/-- Only resistors are rated. -/
theorem ratings_eq_filterMap (c : Chain R) : c.ratings = c.resistors.filterMap Element.rating? := by
  rw [ratings, resistors, List.filterMap_filter]
  congr 1
  funext e
  cases e <;> rfl

/-- A resistor has one rating. -/
theorem map_rating?_resistors (c : Chain R) :
    c.resistors.map Element.rating? = c.ratings.map some := by
  rw [resistors, ratings]
  induction c.components with
  | nil => rfl
  | cons e es ih =>
    cases e with
    | resistor l v r =>
      have rated : (Element.resistor l v r).rating? = some r := rfl
      rw [List.filter_cons_of_pos rfl, List.filterMap_cons_some rated, List.map_cons,
        List.map_cons, ih, rated]
    | group l v bs =>
      have unrated : (Element.group l v bs).rating? = none := rfl
      rw [List.filter_cons_of_neg Bool.noConfusion, List.filterMap_cons_none unrated, ih]

@[simp] theorem ratings_resistor (l : String) (v : Reading R) (r : R) :
    (last (.resistor l v r)).ratings = [r] := by
  rw [ratings_eq_filterMap, resistors_resistor]
  rfl

@[simp] theorem ratings_group (l : String) (v : Reading R) (bs : List (Chain R)) :
    (last (.group l v bs)).ratings = bs.flatMap ratings := by
  rw [ratings_eq_filterMap, resistors_group, List.filterMap_flatMap]
  exact List.flatMap_congr fun b _ => b.ratings_eq_filterMap.symm

@[simp] theorem ratings_link (e : Element R) (c : Chain R) :
    (link e c).ratings = (last e).ratings ++ c.ratings := by
  rw [ratings_eq_filterMap, resistors_link, List.filterMap_append, ← ratings_eq_filterMap,
    ← ratings_eq_filterMap]

/-! ## What keeps their resistances -/

theorem ratings_normalize (c : Chain R) : c.normalize.ratings = c.ratings := by
  rw [ratings_eq_filterMap, resistors_normalize, ratings_eq_filterMap]

/-- Ratings are those of the unlabelled network. -/
theorem ratings_unlabelled (c : Chain R) : c.unlabelled.ratings = c.ratings := by
  have erased : Element.rating? ∘ Element.unlabelled = Element.rating? (R := R) := by
    funext e
    cases e <;> rfl
  rw [ratings, components_unlabelled, List.filterMap_map, erased, ratings]

theorem ratings_unsolved [Zero R] (c : Chain R) : c.unsolved.ratings = c.ratings := by
  have erased : Element.rating? ∘ Element.unsolved = Element.rating? (R := R) := by
    funext e
    cases e <;> rfl
  rw [ratings, components_unsolved, List.filterMap_map, erased, ratings]

theorem ratings_assignLabels (c : Chain R) (s : LabelSequence) :
    (c.assignLabels s).1.ratings = c.ratings := by
  rw [← ratings_unlabelled, unlabelled_assignLabels, ratings_unlabelled]

theorem ratings_propagate [Quantity R] (c : Chain R) (current : R) :
    (c.propagate current).ratings = c.ratings := by
  rw [← ratings_unsolved, unsolved_propagate, ratings_unsolved]

end Chain

end SeriesParallel
