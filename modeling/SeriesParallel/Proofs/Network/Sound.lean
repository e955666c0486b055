import SeriesParallel.Network.Normal
import SeriesParallel.Network.Validation
import SeriesParallel.Proofs.Network.Labels

/-!
# Network — what validation accepts

`Chain.Sound` says what a network must be like to be solved, one component at
a time. Validation walks over the network and stops at the first fault; it
accepts exactly the sound networks. Whether a network is sound or canonical
does not depend on its labels and readings.
-/

namespace SeriesParallel

variable {R : Type}

section

variable [Quantity R]

/-! ## Sound networks -/

/-- A resistance is a number that is not negative. A group has two branches or
more, and the resistance of each is a number other than zero. -/
def Element.Sound : Element R → Prop
  | .resistor _ _ r => Quantity.isFinite r ∧ ¬r < 0
  | .group _ _ bs =>
    2 ≤ bs.length ∧ ∀ b ∈ bs, Quantity.isFinite b.resistance ∧ (b.resistance == 0) = false

/-- Every component is sound, at every depth. -/
def Chain.Sound (c : Chain R) : Prop := ∀ e ∈ c.components, e.Sound

/-! ## Validation -/

theorem checkBranches_eq_ok_iff {place : Chain R} {index : Nat} {bs : List (Chain R)} :
    checkBranches place index bs = .ok () ↔
      ∀ b ∈ bs, Quantity.isFinite b.resistance ∧ (b.resistance == 0) = false := by
  induction bs generalizing index with
  | nil => simp [checkBranches]
  | cons b bs ih =>
    rw [checkBranches, List.forall_mem_cons]
    by_cases hzero : b.resistance == 0
    · simp [hzero]
    · by_cases hfinite : Quantity.isFinite b.resistance
      · simp [hzero, hfinite, ih]
      · simp [hzero, hfinite]

/-- The check of a place is about the element there. -/
theorem Chain.checkHead_eq_ok_iff {place : Chain R} :
    place.checkHead = .ok () ↔ place.head.Sound := by
  unfold checkHead
  cases place.head with
  | resistor l v r =>
    by_cases hfinite : Quantity.isFinite r
    · by_cases hneg : r < 0 <;> simp [Element.Sound, hfinite, hneg]
    · simp [Element.Sound, hfinite]
  | group l v bs =>
    by_cases hfew : bs.length < 2
    · have few : ¬2 ≤ bs.length := Nat.not_le_of_lt hfew
      simp [Element.Sound, hfew, few]
    · have enough : 2 ≤ bs.length := Nat.le_of_not_lt hfew
      simp [Element.Sound, hfew, enough, checkBranches_eq_ok_iff]

theorem checkPlaces_eq_ok_iff {places : List (Chain R)} :
    checkPlaces places = .ok () ↔ ∀ place ∈ places, place.head.Sound := by
  induction places with
  | nil => simp [checkPlaces]
  | cons place places ih =>
    rw [checkPlaces, List.forall_mem_cons, ← ih, ← Chain.checkHead_eq_ok_iff]
    cases place.checkHead with
    | error cause => simp [bind, Except.bind]
    | ok u => simp [bind, Except.bind]

/-- **Validation accepts exactly the sound networks.** -/
theorem Chain.validate_eq_ok_iff {c : Chain R} : c.validate = .ok () ↔ c.Sound := by
  have accepted : c.validate = .ok () ↔ checkPlaces c.preOrder = .ok () := by
    unfold validate
    cases checkPlaces c.preOrder with
    | error cause => simp [Except.mapError]
    | ok u => simp [Except.mapError]
  rw [accepted, checkPlaces_eq_ok_iff, Sound, components, List.forall_mem_map]

/-! ## Labels and readings do not matter -/

theorem Element.sound_unlabelled (e : Element R) : e.unlabelled.Sound ↔ e.Sound := by
  cases e with
  | resistor l v r => rfl
  | group l v bs =>
    simp only [unlabelled, Sound, unlabelledBranches_eq_map, List.length_map, List.forall_mem_map,
      Chain.resistance_unlabelled]

theorem Chain.Sound.assignLabels {c : Chain R} (h : c.Sound)
    (s : LabelSequence) : (c.assignLabels s).1.Sound := by
  refine (forall_mem_iff_of_map_eq Element.sound_unlabelled ?_).mpr h
  rw [← components_unlabelled, unlabelled_assignLabels, components_unlabelled]

theorem Element.sound_unsolved (e : Element R) : e.unsolved.Sound ↔ e.Sound := by
  cases e with
  | resistor l v r => rfl
  | group l v bs =>
    simp only [unsolved, Sound, unsolvedBranches_eq_map, List.length_map, List.forall_mem_map,
      Chain.resistance_unsolved]

end

/-! ## Canonical networks -/

theorem Chain.isCanonical_iff {c : Chain R} :
    c.isCanonical ↔ ∀ e ∈ c.components, e.isSettled := by
  rw [isCanonical, List.all_eq_true, components, List.forall_mem_map]

theorem Element.isSettled_group_iff {l : String} {v : Reading R} {bs : List (Chain R)} :
    (Element.group l v bs).isSettled ↔ bs.length ≠ 1 ∧ ∀ b ∈ bs, ¬b.isLoneGroup := by
  simp [isSettled]

theorem Chain.isLoneGroup_unlabelled (c : Chain R) :
    c.unlabelled.isLoneGroup = c.isLoneGroup := by
  match c with
  | last (.resistor l v r) => rfl
  | last (.group l v bs) => rfl
  | link e c => rfl

theorem Chain.isLoneGroup_unsolved [Zero R] (c : Chain R) :
    c.unsolved.isLoneGroup = c.isLoneGroup := by
  match c with
  | last (.resistor l v r) => rfl
  | last (.group l v bs) => rfl
  | link e c => rfl

theorem Element.isSettled_unlabelled (e : Element R) : e.unlabelled.isSettled ↔ e.isSettled := by
  cases e with
  | resistor l v r => rfl
  | group l v bs =>
    simp only [unlabelled, isSettled_group_iff, unlabelledBranches_eq_map, List.length_map,
      List.forall_mem_map, Chain.isLoneGroup_unlabelled]

theorem Element.isSettled_unsolved [Zero R] (e : Element R) :
    e.unsolved.isSettled ↔ e.isSettled := by
  cases e with
  | resistor l v r => rfl
  | group l v bs =>
    simp only [unsolved, isSettled_group_iff, unsolvedBranches_eq_map, List.length_map,
      List.forall_mem_map, Chain.isLoneGroup_unsolved]

end SeriesParallel
