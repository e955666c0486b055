import SeriesParallel.Proofs.Network.Labels

/-!
# Network — outlines

The **outline** of a network is what a drawing of it can show: its elements and
branches in order, each element with its label, and no resistances or readings.
The **shape** is the outline without labels. As labels are given in canonical
order, the shape of a network determines its outline once it is labelled.
-/

namespace SeriesParallel

variable {R : Type}

mutual

/-- The element without its resistance and its reading. -/
def Element.outline : Element R → Element Unit
  | .resistor l _ _ => .resistor l ⟨(), (), ()⟩ ()
  | .group l _ bs => .group l ⟨(), (), ()⟩ (branchOutlines bs)

/-- The chain without resistances and readings. -/
def Chain.outline : Chain R → Chain Unit
  | .last e => .last e.outline
  | .link e c => .link e.outline c.outline

/-- Branches without resistances and readings. -/
def branchOutlines : List (Chain R) → List (Chain Unit)
  | [] => []
  | b :: bs => b.outline :: branchOutlines bs

end

/-- An element with its branches, and nothing else about it. -/
def Element.shape (e : Element R) : Element Unit := e.outline.unlabelled

/-- A chain with its elements and their branches, and nothing else about them. -/
def Chain.shape (c : Chain R) : Chain Unit := c.outline.unlabelled

/-- The shapes of branches, in order. -/
def branchShapes (bs : List (Chain R)) : List (Chain Unit) :=
  unlabelledBranches (branchOutlines bs)

theorem branchShapes_cons (b : Chain R) (bs : List (Chain R)) :
    branchShapes (b :: bs) = b.shape :: branchShapes bs := rfl

theorem branchShapes_eq_map (bs : List (Chain R)) : branchShapes bs = bs.map Chain.shape := by
  induction bs with
  | nil => rfl
  | cons b bs ih => rw [branchShapes_cons, ih, List.map_cons]

@[simp] theorem Element.shape_group (l : String) (v : Reading R) (bs : List (Chain R)) :
    (Element.group l v bs).shape = .group "" ⟨(), (), ()⟩ (branchShapes bs) := rfl

@[simp] theorem Chain.shape_last (e : Element R) : (last e).shape = .last e.shape := rfl

@[simp] theorem Chain.shape_link (e : Element R) (c : Chain R) :
    (link e c).shape = .link e.shape c.shape := rfl

/-! ## Networks of one shape -/

namespace Chain

theorem of_shape_eq_resistor {l : String} {v : Reading R} {r : R} {d : Chain R}
    (h : (last (.resistor l v r)).shape = d.shape) : ∃ l' v' s, d = last (.resistor l' v' s) := by
  match d with
  | last (.resistor l' v' s) => exact ⟨l', v', s, rfl⟩
  | last (.group ..) => cases h
  | link .. => cases h

/-- What has the shape of a group is a group, with branches of the same shapes. -/
theorem of_shape_eq_group {l : String} {v : Reading R} {bs : List (Chain R)} {d : Chain R}
    (h : (last (.group l v bs)).shape = d.shape) :
    ∃ l' v' ds, d = last (.group l' v' ds) ∧ branchShapes bs = branchShapes ds := by
  match d with
  | last (.resistor ..) => cases h
  | last (.group l' v' ds) =>
    simp only [shape_last, Element.shape_group, last.injEq, Element.group.injEq, true_and] at h
    exact ⟨l', v', ds, rfl, h⟩
  | link .. => cases h

theorem of_shape_eq_link {e : Element R} {c d : Chain R} (h : (link e c).shape = d.shape) :
    ∃ f d', d = link f d' ∧ (last e).shape = (last f).shape ∧ c.shape = d'.shape := by
  match d with
  | last f => cases h
  | link f d' =>
    simp only [shape_link, link.injEq] at h
    exact ⟨f, d', rfl, congrArg last h.1, h.2⟩

end Chain

/-! ## Labelled networks -/

theorem branchOutlines_assignBranchLabels {bs : List (Chain R)}
    (h : ∀ b ∈ bs, ∀ s : LabelSequence,
      ((b.assignLabels s).1.outline, (b.assignLabels s).2) = b.shape.assignLabels s)
    (s : LabelSequence) :
    (branchOutlines (assignBranchLabels s bs).1, (assignBranchLabels s bs).2) =
      assignBranchLabels s (branchShapes bs) := by
  induction bs generalizing s with
  | nil => rfl
  | cons b bs ih =>
    have others := ih (fun b' hb => h b' (List.mem_cons_of_mem _ hb)) (b.assignLabels s).2
    simp only [branchShapes_cons, assignBranchLabels, ← h b List.mem_cons_self, ← others,
      branchOutlines]

/-- **The shape of a network determines its labels**: labelling the network and
labelling its shape give one outline. -/
theorem Chain.outline_assignLabels (c : Chain R) (s : LabelSequence) :
    ((c.assignLabels s).1.outline, (c.assignLabels s).2) = c.shape.assignLabels s := by
  induction c using Chain.inductionOn generalizing s with
  | resistor l v r => rfl
  | group l v bs ih =>
    have inside := branchOutlines_assignBranchLabels ih s.next.2
    simp only [shape_last, Element.shape_group, assignLabels, Element.assignLabels, ← inside,
      outline, Element.outline]
  | link e c he hc =>
    have head := he s
    simp only [shape_last, assignLabels, outline, Prod.mk.injEq, last.injEq] at head
    have rest := hc (e.assignLabels s).2
    simp only [shape_link, assignLabels, outline, head.1, ← head.2, ← rest]

/-- Labels do not show in the shape. -/
theorem Chain.shape_assignLabels (c : Chain R) (s : LabelSequence) :
    (c.assignLabels s).1.shape = c.shape := by
  have labelled := congrArg Prod.fst (c.outline_assignLabels s)
  calc (c.assignLabels s).1.shape = (c.shape.assignLabels s).1.unlabelled :=
        congrArg Chain.unlabelled labelled
    _ = c.shape.unlabelled := unlabelled_assignLabels _ s
    _ = c.shape := c.outline.unlabelled_unlabelled

/-- Networks of one shape are labelled alike. -/
theorem Chain.outline_assignLabels_of_shape_eq {c c' : Chain R} (h : c.shape = c'.shape)
    (s : LabelSequence) : (c.assignLabels s).1.outline = (c'.assignLabels s).1.outline := by
  have labelled := (c.outline_assignLabels s).trans
    (h ▸ (c'.outline_assignLabels s).symm)
  exact congrArg Prod.fst labelled

end SeriesParallel
