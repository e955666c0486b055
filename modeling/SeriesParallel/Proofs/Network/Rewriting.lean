import Mathlib.Logic.Relation
import SeriesParallel.Proofs.Network.NormalForm

/-!
# Network — equivalence by rewriting

The canonical form decides when two networks are the same up to the two
rewrites. `Chain.Rewrites` is one application of a rewrite at one place, and
equivalent networks are those that a sequence of rewrites, forwards and
backwards, leads between.

Soundness says that no rewrite changes the canonical form, whatever the place
and the order. Completeness says that a network is equivalent to its canonical
form: normalization itself is a sequence of rewrites.
-/

namespace SeriesParallel

variable {R : Type} [Zero R]

open Relation (EqvGen ReflTransGen)

/-! ## Rewriting -/

/-- A network as it is read: without labels, readings and empty groups. -/
def Chain.Plain (c : Chain R) : Prop :=
  ∀ e ∈ c.components, e.label = "" ∧ e.reading = .blank ∧ (e.branches = [] → e.isResistor)

/-- One rewrite at one place of a plain network. -/
inductive Chain.Rewrites : Chain R → Chain R → Prop where
  /-- The branch of a one-branch group takes its place. -/
  | collapse (b : Chain R) : Rewrites (.last (.parallel [b])) b
  /-- The branches of a group that is a branch take its place. -/
  | splice (bs cs ds : List (Chain R)) (nonempty : cs ≠ []) :
      Rewrites (.last (.parallel (bs ++ .last (.parallel cs) :: ds)))
        (.last (.parallel (bs ++ cs ++ ds)))
  /-- A rewrite of the rest of a chain. -/
  | before (d : Chain R) {b c : Chain R} : Rewrites b c → Rewrites (d ++ b) (d ++ c)
  /-- A rewrite of the start of a chain. -/
  | after (d : Chain R) {b c : Chain R} : Rewrites b c → Rewrites (b ++ d) (c ++ d)
  /-- A rewrite of a branch. -/
  | branch (bs ds : List (Chain R)) {b c : Chain R} : Rewrites b c →
      Rewrites (.last (.parallel (bs ++ b :: ds))) (.last (.parallel (bs ++ c :: ds)))

/-- The least equivalence that holds between networks one rewrite apart. -/
def Chain.Equivalent : Chain R → Chain R → Prop := EqvGen Rewrites

/-! ## Soundness -/

theorem Chain.normalize_parallel {bs : List (Chain R)} (h : bs.length ≠ 1) :
    (last (.parallel bs)).normalize
      = last (.parallel (bs.flatMap fun b => b.normalize.spliced)) :=
  normalize_group _ _ h

/-- The branches that a group with a branch contributes to a group around it
are those of its own branches. -/
theorem Chain.spliced_normalize_parallel {cs : List (Chain R)} (h : cs ≠ []) :
    (last (.parallel cs)).normalize.spliced = cs.flatMap fun c => c.normalize.spliced := by
  by_cases hone : cs.length = 1
  · obtain ⟨c, rfl⟩ := List.length_eq_one_iff.mp hone
    rw [Element.parallel, normalize_one_branch, List.flatMap_singleton]
  · rw [normalize_parallel hone, Element.parallel, spliced]

/-- A list with an element in a context has one element only if the context is
empty. -/
theorem length_context_ne_one {α : Type} {bs cs ds : List α} (hc : cs ≠ [])
    (h : ¬(bs = [] ∧ ds = [])) : (bs ++ cs ++ ds).length ≠ 1 := by
  have := List.length_pos_iff.mpr hc
  rw [← List.append_eq_nil_iff, ← List.length_eq_zero_iff] at h
  simp only [List.length_append] at h ⊢
  omega

/-- **No rewrite changes the canonical form.** -/
theorem Chain.Rewrites.normalize_eq {b c : Chain R} (h : b.Rewrites c) :
    b.normalize = c.normalize := by
  induction h with
  | collapse b => exact normalize_one_branch _ _ b
  | splice bs cs ds nonempty =>
    -- a group around nothing but a group is collapsed, and never spliced
    by_cases alone : bs = [] ∧ ds = []
    · obtain ⟨rfl, rfl⟩ := alone
      rw [List.nil_append, Element.parallel, normalize_one_branch, List.nil_append,
        List.append_nil]
    · have left := length_context_ne_one (List.cons_ne_nil (last (.parallel cs)) []) alone
      have right := length_context_ne_one nonempty alone
      rw [List.append_assoc, List.singleton_append] at left
      rw [normalize_parallel left, normalize_parallel right]
      simp only [List.flatMap_append, List.flatMap_cons, spliced_normalize_parallel nonempty,
        List.append_assoc]
  | before d h ih => rw [normalize_append, normalize_append, ih]
  | after d h ih => rw [normalize_append, normalize_append, ih]
  | @branch bs ds b c h ih =>
    by_cases alone : bs = [] ∧ ds = []
    · obtain ⟨rfl, rfl⟩ := alone
      exact ih
    · have left := length_context_ne_one (List.cons_ne_nil b []) alone
      have right := length_context_ne_one (List.cons_ne_nil c []) alone
      rw [List.append_assoc, List.singleton_append] at left right
      rw [normalize_parallel left, normalize_parallel right]
      simp only [List.flatMap_append, List.flatMap_cons, ih]

theorem Chain.Equivalent.normalize_eq {b c : Chain R} (h : b.Equivalent c) :
    b.normalize = c.normalize := by
  induction h with
  | rel b c h => exact h.normalize_eq
  | refl b => rfl
  | symm b c h ih => exact ih.symm
  | trans b c d h h' ih ih' => exact ih.trans ih'

/-! ## Equivalence in context -/

namespace Chain.Equivalent

theorem refl (b : Chain R) : b.Equivalent b := EqvGen.refl b

theorem trans {b c d : Chain R} (h : b.Equivalent c) (h' : c.Equivalent d) : b.Equivalent d :=
  EqvGen.trans b c d h h'

/-- A way of rewriting in a context carries equivalences into the context. -/
theorem lift {f : Chain R → Chain R} (hf : ∀ b c, b.Rewrites c → (f b).Rewrites (f c))
    {b c : Chain R} (h : b.Equivalent c) : (f b).Equivalent (f c) := by
  induction h with
  | rel b c h => exact EqvGen.rel _ _ (hf b c h)
  | refl b => exact refl (f b)
  | symm b c h ih => exact EqvGen.symm _ _ ih
  | trans b c d h h' ih ih' => exact trans ih ih'

theorem append {b b' c c' : Chain R} (hb : b.Equivalent b') (hc : c.Equivalent c') :
    (b ++ c).Equivalent (b' ++ c') :=
  (lift (fun _ _ => .after c) hb).trans (lift (fun _ _ => .before b') hc)

/-- Branches may be replaced by equivalent ones, all at once. -/
theorem parallel {f : Chain R → Chain R} (bs : List (Chain R)) {cs : List (Chain R)}
    (h : ∀ c ∈ cs, c.Equivalent (f c)) :
    (last (.parallel (bs ++ cs))).Equivalent (last (.parallel (bs ++ cs.map f))) := by
  induction cs generalizing bs with
  | nil => exact refl _
  | cons c cs ih =>
    -- branches before `c` have been replaced already
    have first : (last (.parallel (bs ++ c :: cs))).Equivalent
        (last (.parallel (bs ++ f c :: cs))) :=
      lift (f := fun c => last (.parallel (bs ++ c :: cs))) (fun _ _ => .branch bs cs)
        (h c (by simp))
    have others := ih (bs ++ [f c]) fun c hc => h c (by simp [hc])
    simp only [List.append_assoc, List.singleton_append] at others
    exact first.trans others

end Chain.Equivalent

/-! ## Completeness -/

namespace Chain

theorem plain_append {b c : Chain R} : (b ++ c).Plain ↔ b.Plain ∧ c.Plain := by
  simp only [Plain, components_append, List.mem_append]
  exact ⟨fun h => ⟨fun e he => h e (.inl he), fun e he => h e (.inr he)⟩,
    fun h e he => he.elim (h.1 e) (h.2 e)⟩

theorem plain_group {l : String} {v : Reading R} {bs : List (Chain R)} :
    (last (.group l v bs)).Plain ↔ l = "" ∧ v = .blank ∧ bs ≠ [] ∧ ∀ b ∈ bs, b.Plain := by
  simp only [Plain, components_group, List.mem_cons, List.mem_flatMap]
  constructor
  · intro h
    have self := h (.group l v bs) (.inl rfl)
    refine ⟨self.1, self.2.1, fun hbs => ?_, fun b hb e he => h e (.inr ⟨b, hb, he⟩)⟩
    exact absurd (self.2.2 hbs) (by simp [Element.isResistor])
  · intro h e he
    obtain ⟨hl, hv, hbs, hb⟩ := h
    rcases he with rfl | ⟨b, hmem, he⟩
    · exact ⟨hl, hv, fun h => absurd h hbs⟩
    · exact hb b hmem e he

theorem plain_parallel {bs : List (Chain R)} :
    (last (.parallel bs)).Plain ↔ bs ≠ [] ∧ ∀ b ∈ bs, b.Plain := by
  simp [Element.parallel, plain_group]

theorem plain_ofResistance (r : R) : (last (.ofResistance r)).Plain := by
  simp [Plain, Element.ofResistance, Element.label, Element.reading, Element.isResistor]

/-- Rewriting leads from plain networks to plain ones only, in both directions. -/
theorem Rewrites.plain_iff {b c : Chain R} (h : b.Rewrites c) : b.Plain ↔ c.Plain := by
  induction h with
  | collapse b => simp [plain_parallel]
  | splice bs cs ds nonempty =>
    simp [plain_parallel, nonempty, or_imp, forall_and]
  | before d h ih => rw [plain_append, plain_append, ih]
  | after d h ih => rw [plain_append, plain_append, ih]
  | branch bs ds h ih => simp [plain_parallel, or_imp, forall_and, ih]

theorem Equivalent.plain_iff {b c : Chain R} (h : b.Equivalent c) : b.Plain ↔ c.Plain := by
  induction h with
  | rel b c h => exact h.plain_iff
  | refl b => rfl
  | symm b c h ih => exact ih.symm
  | trans b c d h h' ih ih' => exact ih.trans ih'

/-- Splicing every branch is a sequence of rewrites. -/
theorem equivalent_spliced (bs : List (Chain R)) {cs : List (Chain R)}
    (h : ∀ c ∈ cs, c.Plain) :
    (last (.parallel (bs ++ cs))).Equivalent (last (.parallel (bs ++ cs.flatMap spliced))) := by
  induction cs generalizing bs with
  | nil => exact .refl _
  | cons c cs ih =>
    have others := ih (bs ++ c.spliced) fun c hc => h c (by simp [hc])
    have first : (last (.parallel (bs ++ c :: cs))).Equivalent
        (last (.parallel (bs ++ c.spliced ++ cs))) := by
      match c with
      | last (.group l v ds) =>
        obtain ⟨rfl, rfl, hds, -⟩ := plain_group.mp (h (last (.group l v ds)) (by simp))
        exact Relation.EqvGen.rel _ _ (.splice bs ds cs hds)
      | last (.resistor l v r) => simpa [spliced] using Equivalent.refl _
      | link e c => simpa [spliced] using Equivalent.refl _
    rw [List.flatMap_cons, ← List.append_assoc]
    exact first.trans others

/-- **Normalization is rewriting**: a plain network is equivalent to its
canonical form. -/
theorem equivalent_normalize {c : Chain R} (hc : c.Plain) : c.Equivalent c.normalize := by
  induction c using Chain.inductionOn with
  | resistor l v r => exact .refl _
  | group l v bs ih =>
    obtain ⟨rfl, rfl, hbs, hb⟩ := plain_group.mp hc
    by_cases hone : bs.length = 1
    · obtain ⟨b, rfl⟩ := List.length_eq_one_iff.mp hone
      have inner := ih b (by simp) (hb b (by simp))
      exact Equivalent.trans (Relation.EqvGen.rel _ _ (.collapse b)) inner
    · have branches : ∀ b ∈ bs, b.Equivalent b.normalize := fun b h => ih b h (hb b h)
      have plain : ∀ c ∈ bs.map normalize, c.Plain := by
        intro c h
        obtain ⟨b, hmem, rfl⟩ := List.mem_map.mp h
        exact (branches b hmem).plain_iff.mp (hb b hmem)
      have spliced := equivalent_spliced [] plain
      rw [List.flatMap_map] at spliced
      rw [normalize_group _ _ hone]
      exact (Equivalent.parallel [] branches).trans spliced
  | link e c he hc' =>
    rw [← last_append, plain_append] at hc
    rw [normalize_link]
    exact (he hc.1).append (hc' hc.2)

end Chain

/-- **The canonical form decides equivalence**: plain networks have one
canonical form exactly when rewrites lead between them. So rewriting at any
places, in any order and any number of times keeps the canonical form. -/
theorem normalize_eq_iff_equivalent {t u : Chain R} (ht : t.Plain) (hu : u.Plain) :
    (t.normalize = u.normalize ↔ t.Equivalent u) ∧
      ∀ w, ReflTransGen Chain.Rewrites t w → w.normalize = t.normalize := by
  refine ⟨⟨fun h => ?_, fun h => h.normalize_eq⟩, fun w h => ?_⟩
  · have there := Chain.equivalent_normalize ht
    have back := EqvGen.symm _ _ (Chain.equivalent_normalize hu)
    rw [← h] at back
    exact there.trans back
  · induction h with
    | refl => rfl
    | tail _ step ih => exact step.normalize_eq.symm.trans ih

/-- A one-branch group around a group within a group: both rewrites apply to
the outermost group. -/
def wrappedGroups : Chain Rat :=
  .last (.parallel [.last (.parallel [.last (.ofResistance 1),
    .last (.parallel [.last (.ofResistance 2), .last (.ofResistance 3)])])])

/-- The same resistors side by side, the last one in a group of its own. -/
def wrappedResistor : Chain Rat :=
  .last (.parallel [.last (.ofResistance 1), .last (.ofResistance 2),
    .last (.parallel [.last (.ofResistance 3)])])

theorem normalize_eq_iff_equivalent_wrapped :
    wrappedGroups.Plain ∧ wrappedResistor.Plain ∧ wrappedGroups.Equivalent wrappedResistor ∧
      ∀ w, ReflTransGen Chain.Rewrites wrappedGroups w →
        w.normalize = wrappedGroups.normalize := by
  have ht : wrappedGroups.Plain := by
    simp [wrappedGroups, Chain.plain_parallel, Chain.plain_ofResistance]
  have hu : wrappedResistor.Plain := by
    simp [wrappedResistor, Chain.plain_parallel, Chain.plain_ofResistance]
  obtain ⟨decides, keeps⟩ := normalize_eq_iff_equivalent ht hu
  exact ⟨ht, hu, decides.mp rfl, keeps⟩

end SeriesParallel
