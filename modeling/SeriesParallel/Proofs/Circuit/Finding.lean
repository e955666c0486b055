import Mathlib.Data.List.Nodup
import SeriesParallel.Proofs.Circuit.Invariant
import SeriesParallel.Proofs.Network.Numerals
import SeriesParallel.Proofs.Topology.Acceptance

/-!
# Circuit — finding a component

Labels are given out by recursion into the branches, and components are
enumerated by a walk with a stack. Both follow canonical order, so the labels of
a circuit are the numerals from one on, each of them once: what is found under a
label is the component that has it.
-/

namespace SeriesParallel

variable {R : Type}

/-! ## Labels from a sequence -/

/-- The next label of a sequence tells where it stands. -/
theorem LabelSequence.eq_of_next {s : LabelSequence} {n : Nat} (h : s.next.1 = label n) :
    s = ⟨n⟩ := congrArg LabelSequence.mk (label_injective h)

theorem Chain.size_unlabelled (c : Chain R) : c.unlabelled.size = c.size := by
  rw [← length_components, components_unlabelled, List.length_map, length_components]

/-- Labelling adds no component and takes none away. -/
theorem Chain.size_assignLabels (c : Chain R) (s : LabelSequence) :
    (c.assignLabels s).1.size = c.size := by
  rw [← size_unlabelled, unlabelled_assignLabels, size_unlabelled]

/-- The components get the labels from the next one on, in the order of the walk. -/
theorem Chain.map_label_assignLabels (c : Chain R) (n : Nat) :
    (c.assignLabels ⟨n⟩).1.components.map Element.label = (List.range' n c.size).map label := by
  rw [(c.labels_assignLabels ⟨n⟩).1, length_components, size_assignLabels]

/-- The sequence goes on behind the labels given out. -/
theorem Chain.assignLabels_snd (c : Chain R) (n : Nat) :
    (c.assignLabels ⟨n⟩).2 = ⟨n + c.size⟩ := by
  have number := (c.labels_assignLabels ⟨n⟩).2
  rw [length_components, size_assignLabels] at number
  exact congrArg LabelSequence.mk number

/-! ## Components under their labels -/

namespace Circuit

variable {c : Circuit R}
  (labels : c.root.components.map Element.label = (List.range' 1 c.root.size).map label)

include labels

theorem nodup_labels : (c.root.components.map Element.label).Nodup := by
  rw [labels]
  exact List.Nodup.map label_injective List.nodup_range'

/-- The label of a component is one of the first, one for each component. -/
theorem exists_label {e : Element R} (he : e ∈ c.root.components) :
    ∃ k, 1 ≤ k ∧ k ≤ c.root.size ∧ e.label = label k := by
  have mem : e.label ∈ c.root.components.map Element.label := List.mem_map_of_mem he
  rw [labels, List.mem_map] at mem
  obtain ⟨k, hk, h⟩ := mem
  rw [List.mem_range'_1] at hk
  exact ⟨k, hk.1, by omega, h.symm⟩

theorem label_ne_empty {e : Element R} (he : e ∈ c.root.components) : e.label ≠ "" := by
  obtain ⟨k, hk, -, h⟩ := exists_label labels he
  have positive := length_label_pos hk
  rintro empty
  rw [← h, empty] at positive
  exact absurd positive (by decide)

/-- Under the label of a component there is no other one. -/
theorem find?_label {e : Element R} (he : e ∈ c.root.components) :
    c.find? e.label = some e := by
  have found : (c.find? e.label).isSome := by
    rw [find?, List.find?_isSome]
    exact ⟨e, he, beq_self_eq_true _⟩
  obtain ⟨x, hx⟩ := Option.isSome_iff_exists.mp found
  have hmem : x ∈ c.root.components := List.mem_of_find?_eq_some hx
  have same : x.label = e.label := by simpa using List.find?_some hx
  rw [hx, List.inj_on_of_nodup_map (nodup_labels labels) hmem he same]

theorem find?_eq_none {l : String} (h : ∀ k, 1 ≤ k → k ≤ c.root.size → l ≠ label k) :
    c.find? l = none := by
  rw [find?, List.find?_eq_none]
  intro e he found
  obtain ⟨k, hk, hk', hlabel⟩ := exists_label labels he
  rw [beq_iff_eq, hlabel] at found
  exact h k hk hk' found.symm

end Circuit

/-- **Labels agree with enumeration, so finding is exact.** The components get
the labels from the next one of the sequence on, in the order of the walk, and
nothing else changes. The components of a circuit that a line describes are
those of its network, one for each element at any depth. No label comes twice
among them and none is empty, each is found under its label, and nothing is
found under a text that is not the label of one of them. -/
theorem find?_exact :
    (∀ (R : Type) (c : Chain R) (s : LabelSequence) (n : Nat), s.next.1 = label n →
      (c.assignLabels s).1.components.map Element.label = (List.range' n c.size).map label ∧
      (c.assignLabels s).2.next.1 = label (n + c.size) ∧
      (c.assignLabels s).1.unlabelled = c.unlabelled) ∧
    ∀ (input : String) (circuit : Circuit Float), Circuit.parse input = .ok circuit →
      circuit.components = circuit.root.components ∧
      circuit.root.components.length = circuit.root.size ∧
      (circuit.root.components.map Element.label).Nodup ∧
      (∀ e ∈ circuit.root.components, e.label ≠ "" ∧ circuit.find? e.label = some e) ∧
      ∀ l, (∀ k, 1 ≤ k → k ≤ circuit.root.size → l ≠ label k) → circuit.find? l = none := by
  constructor
  · intro R c s n h
    obtain rfl := LabelSequence.eq_of_next h
    refine ⟨c.map_label_assignLabels n, ?_, c.unlabelled_assignLabels ⟨n⟩⟩
    rw [c.assignLabels_snd n, LabelSequence.next]
  · intro input circuit h
    obtain ⟨d, -, described⟩ := bind_eq_ok h
    have labels := Circuit.labels_components described
    exact ⟨rfl, circuit.root.length_components, Circuit.nodup_labels labels,
      fun e he => ⟨Circuit.label_ne_empty labels he, Circuit.find?_label labels he⟩,
      fun l => Circuit.find?_eq_none labels⟩

/-- A group in a branch, under labels that are not theirs. -/
def mislabelled : Chain Nat :=
  .last (.group "C" ⟨0, 0, 0⟩ [
    .link (.group "C" ⟨0, 0, 0⟩ [.last (.resistor "" ⟨0, 0, 0⟩ 10),
      .last (.resistor "b" ⟨0, 0, 0⟩ 20)]) (.last (.resistor "A" ⟨0, 0, 0⟩ 30)),
    .last (.resistor "A" ⟨0, 0, 0⟩ 40)])

/-- In the circuit, the group inside a branch is found under the fifth label. -/
theorem find?_exact_mislabelled :
    (mislabelled.assignLabels ⟨26⟩).1.components.map Element.label =
      [label 26, label 27, label 28, label 29, label 30, label 31] ∧
    ∃ circuit, Circuit.parse "X:V.12:100.:220,330.:470,10;47;5" = .ok circuit ∧
      (circuit.root.components.map Element.label).Nodup ∧
      (∃ e, circuit.find? "E" = some e ∧ e.label = "E" ∧ e.isResistor = false) ∧
      circuit.find? "a" = none := by
  obtain ⟨labelling, finding⟩ := find?_exact
  have labelled := (labelling Nat mislabelled ⟨26⟩ 26 rfl).1
  have six : mislabelled.size = 6 := rfl
  rw [six] at labelled
  have parsed : (Circuit.parse "X:V.12:100.:220,330.:470,10;47;5").isOk := by decide +kernel
  have group : ∀ c ∈ (Circuit.parse "X:V.12:100.:220,330.:470,10;47;5").toOption,
      ∃ e ∈ c.root.components, e.label = "E" ∧ e.isResistor = false := by decide +kernel
  obtain ⟨circuit, h⟩ := exists_eq_ok_of_isOk parsed
  obtain ⟨-, -, distinct, found, absent⟩ := finding _ circuit h
  obtain ⟨e, he, label_eq, inner⟩ := group circuit (by rw [h]; rfl)
  -- labels have no small letters
  have small : ∀ k, 1 ≤ k → k ≤ circuit.root.size → "a" ≠ label k := by
    rintro k - - same
    have upper : 'a'.isUpper := isUpper_of_mem_label (n := k) (same ▸ by decide)
    exact absurd upper (by decide)
  exact ⟨labelled, circuit, h, distinct, ⟨e, label_eq ▸ (found e he).2, label_eq, inner⟩,
    absent "a" small⟩

end SeriesParallel
