import SeriesParallel.Network.Normal
import SeriesParallel.Proofs.Network.Components

/-!
# Network — equations of the canonical form

Collapsing runs over the whole network before flattening does. Seen from
outside the two work as one pass: series connection is kept, the canonical form
of a one-branch group is that of its branch, and any other group keeps its
place around the canonical forms of its branches, spliced. Splicing leaves no
group on its own among the branches of another one.
-/

namespace SeriesParallel

variable {R : Type}

/-- A group with another number of branches than one is kept. -/
theorem Element.collapse_group (l : String) (v : Reading R) {bs : List (Chain R)}
    (h : bs.length ≠ 1) :
    (Element.group l v bs).collapse = .last (.group l v (collapseBranches bs)) := by
  match bs with
  | [] => rfl
  | [b] => simp at h
  | b :: c :: bs => rfl

namespace Chain

theorem collapse_append (c d : Chain R) : (c ++ d).collapse = c.collapse ++ d.collapse := by
  match c with
  | last e => rfl
  | link e c => rw [link_append, collapse, collapse_append c d, collapse, append_assoc]

theorem flatten_append (c d : Chain R) : (c ++ d).flatten = c.flatten ++ d.flatten := by
  match c with
  | last e => rfl
  | link e c => rw [link_append, flatten, flatten_append c d, flatten, link_append]

/-- **The canonical form keeps series connection.** -/
theorem normalize_append (c d : Chain R) :
    (c ++ d).normalize = c.normalize ++ d.normalize := by
  rw [normalize, collapse_append, flatten_append, normalize, normalize]

theorem normalize_link (e : Element R) (c : Chain R) :
    (link e c).normalize = (last e).normalize ++ c.normalize :=
  normalize_append (last e) c

/-- A one-branch group and its branch have one canonical form. -/
theorem normalize_one_branch (l : String) (v : Reading R) (b : Chain R) :
    (last (.group l v [b])).normalize = b.normalize := rfl

/-- **Any other group keeps its place**, and the canonical forms of its
branches are spliced. -/
theorem normalize_group (l : String) (v : Reading R) {bs : List (Chain R)} (h : bs.length ≠ 1) :
    (last (.group l v bs)).normalize
      = last (.group l v (bs.flatMap fun b => b.normalize.spliced)) := by
  simp only [normalize, collapse, Element.collapse_group l v h, flatten, Element.flatten,
    flattenBranches_eq_flatMap, collapseBranches_eq_map, List.flatMap_map]

/-! ## Lone groups -/

/-- What a branch stands for is itself, unless it is a lone group. -/
theorem mem_spliced {b c : Chain R} (h : b ∈ c.spliced) :
    b = c ∧ ¬c.isLoneGroup ∨ ∃ l v bs, c = last (.group l v bs) ∧ b ∈ bs := by
  match c with
  | last (.resistor l v r) => exact .inl ⟨List.mem_singleton.mp h, Bool.false_ne_true⟩
  | last (.group l v bs) => exact .inr ⟨l, v, bs, rfl, h⟩
  | link e c => exact .inl ⟨List.mem_singleton.mp h, Bool.false_ne_true⟩

theorem mem_components_of_mem_spliced {b c : Chain R} {e : Element R} (hb : b ∈ c.spliced)
    (he : e ∈ b.components) : e ∈ c.components := by
  rcases mem_spliced hb with ⟨rfl, -⟩ | ⟨l, v, bs, rfl, hb⟩
  · exact he
  · exact mem_components_group hb he

/-- **No branch of a canonical form is a lone group**, whatever the network:
empty groups are spliced like any others. -/
theorem not_isLoneGroup_normalize (c : Chain R) :
    ∀ e ∈ c.normalize.components, ∀ b ∈ e.branches, ¬b.isLoneGroup := by
  induction c using Chain.inductionOn with
  | resistor l v r =>
    intro e he b hb
    rw [show (last (.resistor l v r)).normalize = last (.resistor l v r) from rfl,
      components_resistor, List.mem_singleton] at he
    subst he
    exact absurd hb List.not_mem_nil
  | group l v bs ih =>
    by_cases hone : bs.length = 1
    · obtain ⟨b, rfl⟩ := List.length_eq_one_iff.mp hone
      rw [normalize_one_branch]
      exact ih b List.mem_cons_self
    · rw [normalize_group l v hone, components_group]
      intro e he b hb
      rcases List.mem_cons.mp he with rfl | he
      · obtain ⟨d, hd, hb⟩ := List.mem_flatMap.mp hb
        rcases mem_spliced hb with ⟨rfl, hlone⟩ | ⟨l', v', ds, hnormal, hb⟩
        · exact hlone
        · -- a spliced branch was one of a group inside already
          refine ih d hd (.group l' v' ds) ?_ b hb
          rw [hnormal, components_group]
          exact List.mem_cons_self
      · obtain ⟨x, hx, he⟩ := List.mem_flatMap.mp he
        obtain ⟨d, hd, hx⟩ := List.mem_flatMap.mp hx
        exact ih d hd e (mem_components_of_mem_spliced hx he) b hb
  | link e c he hc =>
    rw [normalize_link, components_append]
    intro x hx
    exact (List.mem_append.mp hx).elim (he x) (hc x)

end Chain

end SeriesParallel
