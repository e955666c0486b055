import SeriesParallel.Network.PreOrder

/-!
# Network — induction and components

Chains and elements are mutually recursive through lists of branches. One
induction principle covers them: an element is seen as the chain of that
element alone, so a statement is about chains only.

What a theorem says "at every depth" is said of `Chain.components`, the
elements that the walk in canonical order visits. The walk keeps a stack; here
it is tied to the recursion on the tree, and `components` gets one equation for
each way a chain is built.
-/

namespace SeriesParallel

variable {R : Type}

/-! ## Induction -/

/-- Induction over networks: a chain is a lone resistor, a lone group with its
branches, or an element in series with a chain. -/
@[elab_as_elim]
theorem Chain.inductionOn {motive : Chain R → Prop} (c : Chain R)
    (resistor : ∀ l v r, motive (.last (.resistor l v r)))
    (group : ∀ l v bs, (∀ b ∈ bs, motive b) → motive (.last (.group l v bs)))
    (link : ∀ e c, motive (.last e) → motive c → motive (.link e c)) : motive c :=
  match c with
  | .last (.resistor l v r) => resistor l v r
  | .last (.group l v bs) =>
    group l v bs fun b _ => Chain.inductionOn b resistor group link
  | .link e c =>
    link e c (Chain.inductionOn (.last e) resistor group link)
      (Chain.inductionOn c resistor group link)
termination_by sizeOf c
decreasing_by
  · have := List.sizeOf_lt_of_mem ‹b ∈ bs›
    simp only [Chain.last.sizeOf_spec, Element.group.sizeOf_spec]
    omega
  · cases c <;> simp only [Chain.last.sizeOf_spec, Chain.link.sizeOf_spec] <;> omega
  · simp only [Chain.link.sizeOf_spec]
    omega

/-! ## Chains in series -/

namespace Chain

@[simp] theorem last_append (e : Element R) (c : Chain R) : last e ++ c = link e c := rfl

@[simp] theorem link_append (e : Element R) (c d : Chain R) :
    link e c ++ d = link e (c ++ d) := rfl

theorem append_assoc (b c d : Chain R) : b ++ c ++ d = b ++ (c ++ d) := by
  match b with
  | last e => rfl
  | link e b => rw [link_append, link_append, link_append, append_assoc b c d]

end Chain

/-! ## The walk visits the tree in order -/

theorem branchNodes_append (bs cs : List (Chain R)) :
    branchNodes (bs ++ cs) = branchNodes bs ++ branchNodes cs := by
  induction bs with
  | nil => rfl
  | cons b bs ih => simp [branchNodes, ih]

theorem branchNodes_eq_flatMap (bs : List (Chain R)) :
    branchNodes bs = bs.flatMap Chain.nodes := by
  induction bs with
  | nil => rfl
  | cons b bs ih => simp [branchNodes, ih]

/-- The places of a chain, read off the way the walk takes it apart. -/
theorem Chain.nodes_eq (c : Chain R) :
    c.nodes = c :: branchNodes (c.head.branches ++ c.rest?.toList) := by
  have inside (e : Element R) : e.nodes = branchNodes e.branches := by
    cases e <;> rfl
  cases c with
  | last e => simp [nodes, head, rest?, inside]
  | link e c => simp [nodes, head, rest?, inside, branchNodes_append, branchNodes]

/-- **The stack holds what is left of the tree**: a walk visits the places of
its pending chains, one chain after another. -/
theorem Walk.toList_eq_branchNodes (w : Walk R) : w.toList = branchNodes w.pending := by
  -- along the walk: a step puts what is inside a place in front of the rest
  induction w using Walk.toList.induct with
  | case1 w h =>
    obtain ⟨pending⟩ := w
    cases pending with
    | nil => rw [toList]; rfl
    | cons c cs => simp [next?] at h
  | case2 w c w' h ih =>
    obtain ⟨pending⟩ := w
    cases pending with
    | nil => simp [next?] at h
    | cons b bs =>
      simp only [next?, Option.some.injEq, Prod.mk.injEq] at h
      obtain ⟨rfl, rfl⟩ := h
      rw [toList]
      simp only [next?, ih, branchNodes_append, branchNodes, Chain.nodes_eq b,
        List.cons_append]

theorem Chain.preOrder_eq_nodes (c : Chain R) : c.preOrder = c.nodes := by
  simp [preOrder, Walk.toList_eq_branchNodes, branchNodes]

/-- A walk visits as many places as it had still to visit. -/
theorem Walk.length_toList (w : Walk R) : w.toList.length = w.size := by
  induction w using Walk.toList.induct with
  | case1 w h =>
    obtain ⟨pending⟩ := w
    cases pending with
    | nil => rw [toList]; rfl
    | cons c cs => simp [next?] at h
  | case2 w c w' h ih => rw [toList, h, List.length_cons, ih, size_next h]

/-! ## Components -/

namespace Chain

@[simp] theorem components_resistor (l : String) (v : Reading R) (r : R) :
    (last (.resistor l v r)).components = [.resistor l v r] := by
  simp [components, preOrder_eq_nodes, nodes, Element.nodes, head]

@[simp] theorem components_group (l : String) (v : Reading R) (bs : List (Chain R)) :
    (last (.group l v bs)).components = .group l v bs :: bs.flatMap components := by
  have inside : components = fun b : Chain R => b.nodes.map head := by
    funext b
    simp [components, preOrder_eq_nodes]
  simp [inside, nodes, Element.nodes, head, branchNodes_eq_flatMap, List.map_flatMap]

@[simp] theorem components_link (e : Element R) (c : Chain R) :
    (link e c).components = (last e).components ++ c.components := by
  simp [components, preOrder_eq_nodes, nodes, head]

@[simp] theorem components_append (c d : Chain R) :
    (c ++ d).components = c.components ++ d.components := by
  match c with
  | last e => simp
  | link e c => simp [components_append c d]

theorem components_last_subset (e : Element R) (c : Chain R) :
    (last e).components ⊆ (link e c).components := by
  rw [components_link]
  exact List.subset_append_left _ _

theorem components_rest_subset (e : Element R) (c : Chain R) :
    c.components ⊆ (link e c).components := by
  rw [components_link]
  exact List.subset_append_right _ _

theorem length_components (c : Chain R) : c.components.length = c.size := by
  rw [components, List.length_map, preOrder, Walk.length_toList]
  rfl

/-- The components of a branch are components of its group. -/
theorem mem_components_group {l : String} {v : Reading R} {bs : List (Chain R)} {b : Chain R}
    {x : Element R} (hb : b ∈ bs) (hx : x ∈ b.components) :
    x ∈ (last (.group l v bs)).components := by
  rw [components_group]
  exact List.mem_cons_of_mem _ (List.mem_flatMap.mpr ⟨b, hb, hx⟩)

/-- The components of a branch are components of the chain that the group is in. -/
theorem mem_components_of_mem_branches {c b : Chain R} {e x : Element R}
    (he : e ∈ c.components) (hb : b ∈ e.branches) (hx : x ∈ b.components) :
    x ∈ c.components := by
  induction c using Chain.inductionOn with
  | resistor l v r =>
    simp only [components_resistor, List.mem_singleton] at he
    subst he
    simp [Element.branches] at hb
  | group l v bs ih =>
    rw [components_group, List.mem_cons, List.mem_flatMap] at he ⊢
    rcases he with rfl | ⟨b', hb', he⟩
    · exact .inr ⟨b, hb, hx⟩
    · exact .inr ⟨b', hb', ih b' hb' he⟩
  | link f c hf hc =>
    rw [components_link, List.mem_append] at he ⊢
    exact he.imp hf hc

/-- The components of an element are components of the chain that it is in. -/
theorem mem_components_of_mem_last {c : Chain R} {e x : Element R} (he : e ∈ c.components)
    (hx : x ∈ (last e).components) : x ∈ c.components := by
  cases e with
  | resistor l v r =>
    rw [components_resistor, List.mem_singleton] at hx
    exact hx ▸ he
  | group l v bs =>
    rw [components_group, List.mem_cons, List.mem_flatMap] at hx
    rcases hx with rfl | ⟨b, hb, hx⟩
    · exact he
    · exact mem_components_of_mem_branches he hb hx

/-- The resistors of a network, in canonical order. -/
def resistors (c : Chain R) : List (Element R) := c.components.filter Element.isResistor

@[simp] theorem resistors_resistor (l : String) (v : Reading R) (r : R) :
    (last (.resistor l v r)).resistors = [.resistor l v r] := by
  rw [resistors, components_resistor]
  rfl

@[simp] theorem resistors_group (l : String) (v : Reading R) (bs : List (Chain R)) :
    (last (.group l v bs)).resistors = bs.flatMap resistors := by
  rw [resistors, components_group, List.filter_cons_of_neg (by simp [Element.isResistor]),
    List.filter_flatMap]
  rfl

@[simp] theorem resistors_append (c d : Chain R) :
    (c ++ d).resistors = c.resistors ++ d.resistors := by
  rw [resistors, components_append, List.filter_append]
  rfl

@[simp] theorem resistors_link (e : Element R) (c : Chain R) :
    (link e c).resistors = (last e).resistors ++ c.resistors := resistors_append (last e) c

/-- Every group, at every depth, has a branch. -/
def NoEmptyGroup (c : Chain R) : Prop := ∀ e ∈ c.components, e.branches = [] → e.isResistor

end Chain

end SeriesParallel
