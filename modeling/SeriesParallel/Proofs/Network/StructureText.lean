import SeriesParallel.Network.Structure
import SeriesParallel.Proofs.Decimal.Shortest
import SeriesParallel.Proofs.Network.Monotone

/-!
# Network — the structure text is faithful

The structure text of a network shows what the network is. Every element ends
where its own bracket closes, and a chain ends where no element starts, so the
text of a network and what follows it determine the shape of the network and
the texts of its numbers. Nothing is lost where groups follow each other
directly, have one branch, or have none.
-/

namespace SeriesParallel

variable {R : Type}

/-! ## Networks that are printed alike -/

/-- Two networks are of one shape, and the numbers in them are spelled alike. -/
structure Chain.PrintsAs (number : R → String) (c d : Chain R) : Prop where
  shape_eq : c.shape = d.shape
  ratings_eq : c.ratings.map number = d.ratings.map number

/-- The branches of two groups are of the same shapes, and the numbers in them
are spelled alike. -/
structure BranchesPrintAs (number : R → String) (bs ds : List (Chain R)) : Prop where
  shapes_eq : branchShapes bs = branchShapes ds
  ratings_eq : (bs.flatMap Chain.ratings).map number = (ds.flatMap Chain.ratings).map number

namespace Chain.PrintsAs

variable {number : R → String}

theorem resistor {l l' : String} {v v' : Reading R} {r r' : R} (h : number r = number r') :
    (last (.resistor l v r)).PrintsAs number (last (.resistor l' v' r')) :=
  ⟨rfl, by rw [ratings_resistor, ratings_resistor, List.map_singleton, List.map_singleton, h]⟩

theorem group {l l' : String} {v v' : Reading R} {bs ds : List (Chain R)}
    (h : BranchesPrintAs number bs ds) :
    (last (.group l v bs)).PrintsAs number (last (.group l' v' ds)) where
  shape_eq := by
    rw [shape_last, shape_last, Element.shape_group, Element.shape_group, h.shapes_eq]
  ratings_eq := by rw [ratings_group, ratings_group, h.ratings_eq]

theorem link {e f : Element R} {c d : Chain R} (head : (last e).PrintsAs number (last f))
    (rest : c.PrintsAs number d) : (link e c).PrintsAs number (link f d) where
  shape_eq := by
    have head_eq : e.shape = f.shape := last.inj head.shape_eq
    rw [shape_link, shape_link, head_eq, rest.shape_eq]
  ratings_eq := by
    rw [ratings_link, ratings_link, List.map_append, List.map_append, head.ratings_eq,
      rest.ratings_eq]

theorem branches {b d : Chain R} {bs ds : List (Chain R)} (first : b.PrintsAs number d)
    (others : BranchesPrintAs number bs ds) : BranchesPrintAs number (b :: bs) (d :: ds) where
  shapes_eq := by
    rw [branchShapes_cons, branchShapes_cons, first.shape_eq, others.shapes_eq]
  ratings_eq := by
    rw [List.flatMap_cons, List.flatMap_cons, List.map_append, List.map_append, first.ratings_eq,
      others.ratings_eq]

end Chain.PrintsAs

/-! ## Where the parts of a text end -/

/-- What stands behind a chain does not start an element. -/
def EndsChain (cs : List Char) : Prop := ∀ c ∈ cs.head?, c ≠ '(' ∧ c ≠ '\x7b'

theorem endsChain_nil : EndsChain [] := nofun

theorem endsChain_cons {c : Char} {cs : List Char} (h : c ≠ '(' ∧ c ≠ '\x7b') :
    EndsChain (c :: cs) := by
  intro d hd
  exact Option.some.inj hd ▸ h

/-- A text is split at the first bracket that is not in it. -/
theorem before_bracket_inj {xs ys s t : List Char} (hx : ')' ∉ xs) (hy : ')' ∉ ys)
    (h : xs ++ ')' :: s = ys ++ ')' :: t) : xs = ys ∧ s = t := by
  induction xs generalizing ys with
  | nil =>
    cases ys with
    | nil => exact ⟨rfl, List.tail_eq_of_cons_eq h⟩
    | cons y ys => exact absurd (List.head_eq_of_cons_eq h ▸ List.mem_cons_self) hy
  | cons x xs ih =>
    cases ys with
    | nil => exact absurd (List.head_eq_of_cons_eq h ▸ List.mem_cons_self) hx
    | cons y ys =>
      obtain ⟨rfl, behind⟩ := List.cons.inj h
      obtain ⟨rfl, rfl⟩ := ih (List.not_mem_of_not_mem_cons hx) (List.not_mem_of_not_mem_cons hy)
        behind
      exact ⟨rfl, rfl⟩

variable (number : R → String)

/-- What the text of a group has behind its first branch. -/
def laterSpelling : List (Chain R) → List Char
  | [] => []
  | bs => ',' :: branchSpelling number bs

theorem branchSpelling_cons (b : Chain R) (bs : List (Chain R)) :
    branchSpelling number (b :: bs) = b.spelling number ++ laterSpelling number bs := by
  cases bs with
  | nil => simp [branchSpelling, laterSpelling]
  | cons c bs => rfl

theorem endsChain_laterSpelling (bs : List (Chain R)) (s : List Char) :
    EndsChain (laterSpelling number bs ++ '\x7d' :: s) := by
  cases bs with
  | nil => exact endsChain_cons (by decide)
  | cons b bs => exact endsChain_cons (by decide)

/-- A chain starts with an element, and an element with a bracket. -/
theorem Chain.not_endsChain_spelling (c : Chain R) (s : List Char) :
    ¬EndsChain (c.spelling number ++ s) := by
  intro h
  match c with
  | last (.resistor l v r) | link (.resistor l v r) c => exact absurd rfl (h '(' rfl).1
  | last (.group l v bs) | link (.group l v bs) c => exact absurd rfl (h '\x7b' rfl).2

/-! ## The text determines the network -/

variable {number}

mutual

/-- The text of an element and what follows it determine both. -/
theorem Element.spelling_append_inj (clean : ∀ r, ')' ∉ (number r).toList) :
    (e f : Element R) → {s t : List Char} →
    e.spelling number ++ s = f.spelling number ++ t →
    (Chain.last e).PrintsAs number (Chain.last f) ∧ s = t
  | .resistor l v r, .resistor l' v' r', s, t, h => by
    simp only [Element.spelling, List.cons_append, List.append_assoc, List.nil_append,
      List.cons.injEq, true_and] at h
    obtain ⟨same, rest⟩ := before_bracket_inj (clean r) (clean r') h
    exact ⟨.resistor (String.toList_inj.mp same), rest⟩
  | .resistor l v r, .group l' v' ds, s, t, h => by simp [Element.spelling] at h
  | .group l v bs, .resistor l' v' r', s, t, h => by simp [Element.spelling] at h
  | .group l v bs, .group l' v' ds, s, t, h => by
    simp only [Element.spelling, List.cons_append, List.append_assoc, List.nil_append,
      List.cons.injEq, true_and] at h
    obtain ⟨same, rest⟩ := branchSpelling_append_inj clean bs ds h
    exact ⟨.group same, rest⟩

/-- The text of a chain and what ends it determine both. -/
theorem Chain.spelling_append_inj (clean : ∀ r, ')' ∉ (number r).toList) :
    (c d : Chain R) → {s t : List Char} →
    EndsChain s → EndsChain t → c.spelling number ++ s = d.spelling number ++ t →
    c.PrintsAs number d ∧ s = t
  | .last e, .last f, s, t, _, _, h => e.spelling_append_inj clean f h
  | .last e, .link f d, s, t, hs, _, h => by
    rw [Chain.spelling, Chain.spelling, List.append_assoc] at h
    -- one chain ends where the other one goes on with an element
    obtain ⟨-, rfl⟩ := e.spelling_append_inj clean f h
    exact absurd hs (d.not_endsChain_spelling number t)
  | .link e c, .last f, s, t, _, ht, h => by
    rw [Chain.spelling, Chain.spelling, List.append_assoc] at h
    obtain ⟨-, rfl⟩ := e.spelling_append_inj clean f h
    exact absurd ht (c.not_endsChain_spelling number s)
  | .link e c, .link f d, s, t, hs, ht, h => by
    rw [Chain.spelling, Chain.spelling, List.append_assoc, List.append_assoc] at h
    obtain ⟨head, h⟩ := e.spelling_append_inj clean f h
    obtain ⟨rest, h⟩ := c.spelling_append_inj clean d hs ht h
    exact ⟨head.link rest, h⟩

/-- The texts of branches and what closes their group determine both. -/
theorem branchSpelling_append_inj (clean : ∀ r, ')' ∉ (number r).toList) :
    (bs ds : List (Chain R)) → {s t : List Char} →
    branchSpelling number bs ++ '\x7d' :: s = branchSpelling number ds ++ '\x7d' :: t →
    BranchesPrintAs number bs ds ∧ s = t
  | [], [], s, t, h => ⟨⟨rfl, rfl⟩, List.tail_eq_of_cons_eq h⟩
  | [], d :: ds, s, t, h => by
    rw [branchSpelling_cons, List.append_assoc] at h
    refine absurd ?_ (d.not_endsChain_spelling number (laterSpelling number ds ++ '\x7d' :: t))
    rw [← h]
    exact endsChain_cons (by decide)
  | b :: bs, [], s, t, h => by
    rw [branchSpelling_cons, List.append_assoc] at h
    refine absurd ?_ (b.not_endsChain_spelling number (laterSpelling number bs ++ '\x7d' :: s))
    rw [h]
    exact endsChain_cons (by decide)
  | b :: bs, d :: ds, s, t, h => by
    rw [branchSpelling_cons, branchSpelling_cons, List.append_assoc, List.append_assoc] at h
    obtain ⟨first, h⟩ := b.spelling_append_inj clean d (endsChain_laterSpelling number bs s)
      (endsChain_laterSpelling number ds t) h
    match bs, ds with
    | [], [] => exact ⟨first.branches ⟨rfl, rfl⟩, List.tail_eq_of_cons_eq h⟩
    | [], _ :: _ => simp [laterSpelling] at h
    | _ :: _, [] => simp [laterSpelling] at h
    | b' :: bs, d' :: ds =>
      simp only [laterSpelling, List.cons_append, List.cons.injEq, true_and] at h
      obtain ⟨others, h⟩ := branchSpelling_append_inj clean (b' :: bs) (d' :: ds) h
      exact ⟨first.branches others, h⟩

end

/-! ## The network determines the text -/

namespace Chain.PrintsAs

theorem of_resistor {l : String} {v : Reading R} {r : R} {d : Chain R}
    (h : (last (.resistor l v r)).PrintsAs number d) :
    ∃ l' v' r', d = last (.resistor l' v' r') ∧ number r = number r' := by
  obtain ⟨l', v', r', rfl⟩ := of_shape_eq_resistor h.shape_eq
  have same := h.ratings_eq
  rw [ratings_resistor, ratings_resistor, List.map_singleton, List.map_singleton] at same
  exact ⟨l', v', r', rfl, List.head_eq_of_cons_eq same⟩

theorem of_group {l : String} {v : Reading R} {bs : List (Chain R)} {d : Chain R}
    (h : (last (.group l v bs)).PrintsAs number d) :
    ∃ l' v' ds, d = last (.group l' v' ds) ∧ BranchesPrintAs number bs ds := by
  obtain ⟨l', v', ds, rfl, shapes⟩ := of_shape_eq_group h.shape_eq
  have same := h.ratings_eq
  rw [ratings_group, ratings_group] at same
  exact ⟨l', v', ds, rfl, shapes, same⟩

theorem of_link {e : Element R} {c d : Chain R} (h : (Chain.link e c).PrintsAs number d) :
    ∃ f d', d = Chain.link f d' ∧ (last e).PrintsAs number (last f) ∧ c.PrintsAs number d' := by
  obtain ⟨f, d', rfl, head, rest⟩ := of_shape_eq_link h.shape_eq
  have same := h.ratings_eq
  rw [ratings_link, ratings_link, List.map_append, List.map_append] at same
  have lengths : ((last e).ratings.map number).length = ((last f).ratings.map number).length := by
    rw [List.length_map, List.length_map, length_ratings_eq head]
  obtain ⟨same_head, same_rest⟩ := List.append_inj same lengths
  exact ⟨f, d', rfl, ⟨head, same_head⟩, ⟨rest, same_rest⟩⟩

end Chain.PrintsAs

theorem BranchesPrintAs.of_cons {b : Chain R} {bs ds : List (Chain R)}
    (h : BranchesPrintAs number (b :: bs) ds) :
    ∃ d ds', ds = d :: ds' ∧ b.PrintsAs number d ∧ BranchesPrintAs number bs ds' := by
  obtain ⟨shapes, same⟩ := h
  cases ds with
  | nil => cases shapes
  | cons d ds =>
    rw [branchShapes_cons, branchShapes_cons, List.cons.injEq] at shapes
    rw [List.flatMap_cons, List.flatMap_cons, List.map_append, List.map_append] at same
    have lengths : (b.ratings.map number).length = (d.ratings.map number).length := by
      rw [List.length_map, List.length_map, Chain.length_ratings_eq shapes.1]
    obtain ⟨same_first, same_others⟩ := List.append_inj same lengths
    exact ⟨d, ds, rfl, ⟨shapes.1, same_first⟩, ⟨shapes.2, same_others⟩⟩

theorem branchSpelling_eq_of_printAs {bs ds : List (Chain R)}
    (inside : ∀ b ∈ bs, ∀ d, b.PrintsAs number d → b.spelling number = d.spelling number)
    (h : BranchesPrintAs number bs ds) : branchSpelling number bs = branchSpelling number ds := by
  induction bs generalizing ds with
  | nil =>
    cases ds with
    | nil => rfl
    | cons d ds => cases h.shapes_eq
  | cons b bs ih =>
    obtain ⟨d, ds, rfl, first, others⟩ := h.of_cons
    rw [List.forall_mem_cons] at inside
    have later := ih inside.2 others
    rw [branchSpelling_cons, branchSpelling_cons, inside.1 d first]
    cases bs with
    | nil =>
      cases ds with
      | nil => rfl
      | cons d' ds => cases others.shapes_eq
    | cons b' bs =>
      obtain ⟨d', ds, rfl, -⟩ := others.of_cons
      simp only [laterSpelling, later]

/-- **Networks that are printed alike have one text.** -/
theorem Chain.PrintsAs.spelling_eq {c d : Chain R} (h : c.PrintsAs number d) :
    c.spelling number = d.spelling number := by
  induction c using Chain.inductionOn generalizing d with
  | resistor l v r =>
    obtain ⟨l', v', r', rfl, same⟩ := h.of_resistor
    rw [spelling, spelling, Element.spelling, Element.spelling, same]
  | group l v bs ih =>
    obtain ⟨l', v', ds, rfl, same⟩ := h.of_group
    rw [spelling, spelling, Element.spelling, Element.spelling,
      branchSpelling_eq_of_printAs (fun b hb d => ih b hb) same]
  | link e c he hc =>
    obtain ⟨f, d, rfl, head, rest⟩ := h.of_link
    have same := he head
    rw [spelling, spelling] at same
    rw [spelling, spelling, same, hc rest]

/-- **A structure text is that of the networks that are printed alike.** -/
theorem Chain.structure_eq_iff (clean : ∀ r, ')' ∉ (number r).toList) {c d : Chain R} :
    c.structure number = d.structure number ↔ c.PrintsAs number d := by
  rw [Chain.structure, Chain.structure, String.ofList_inj]
  constructor
  · intro h
    have whole : c.spelling number ++ [] = d.spelling number ++ [] := by rw [h]
    exact (c.spelling_append_inj clean d endsChain_nil endsChain_nil whole).1
  · exact Chain.PrintsAs.spelling_eq

/-! ## Texts of floats -/

/-- Where values under one map tell those under another, equal lists of the one
are equal lists of the other. -/
theorem map_eq_map_of_forall_mem {α β γ : Type} {f : α → β} {g : α → γ} {xs ys : List α}
    (h : ∀ x ∈ xs, ∀ y ∈ ys, f x = f y → g x = g y) (same : xs.map f = ys.map f) :
    xs.map g = ys.map g := by
  induction xs generalizing ys with
  | nil =>
    cases ys with
    | nil => rfl
    | cons y ys => cases same
  | cons x xs ih =>
    cases ys with
    | nil => cases same
    | cons y ys =>
      obtain ⟨first, others⟩ := List.cons.inj same
      rw [List.map_cons, List.map_cons, h x List.mem_cons_self y List.mem_cons_self first,
        ih (fun x hx y hy => h x (List.mem_cons_of_mem _ hx) y (List.mem_cons_of_mem _ hy)) others]

/-- **The structure text is faithful.** Where no text of a number has one of the
marks of the notation in it, and numbers other than the undefined one have texts
of their own, two networks without undefined resistances have one structure
text exactly when they are of one shape at every depth and their resistances
are the same bit by bit. -/
theorem structure_eq_iff_shape_eq (number : Float → String)
    (clean : ∀ x, ∀ c ∈ ['(', ')', '\x7b', '\x7d', ',', ' '], c ∉ (number x).toList)
    (distinct : ∀ x y : Float, ¬x.isNaN → ¬y.isNaN → number x = number y → x.toBits = y.toBits)
    (a b : Chain Float) (ha : ∀ r ∈ a.ratings, ¬r.isNaN) (hb : ∀ r ∈ b.ratings, ¬r.isNaN) :
    a.structure number = b.structure number ↔
      a.shape = b.shape ∧ a.ratings.map Float.toBits = b.ratings.map Float.toBits := by
  have clean : ∀ x, ')' ∉ (number x).toList := fun x => clean x ')' (by decide)
  rw [Chain.structure_eq_iff clean]
  constructor
  · intro h
    refine ⟨h.shape_eq, map_eq_map_of_forall_mem (fun x hx y hy => ?_) h.ratings_eq⟩
    exact distinct x y (ha x hx) (hb y hy)
  · intro h
    refine ⟨h.1, map_eq_map_of_forall_mem (fun x _ y _ same => ?_) h.2⟩
    rw [Float.toBits_inj.mp same]

/-- Two groups in a row behind a resistor, the first of them without a branch. -/
def groupsInARow : Chain Float :=
  .link (.resistor "A" .blank 300.0) (.link (.group "B" .blank [])
    (.last (.group "C" .blank [.last (.resistor "D" .blank 0.5)])))

/-- The same two groups one inside the other. -/
def groupsNested : Chain Float :=
  .link (.resistor "A" .blank 300.0) (.last (.group "B" .blank
    [.link (.group "C" .blank []) (.last (.resistor "D" .blank 0.5))]))

/-- The shortest decimals of floats are such texts, and show where a group ends. -/
theorem structure_groupsInARow_ne_groupsNested :
    (∀ x, ∀ c ∈ ['(', ')', '\x7b', '\x7d', ',', ' '], c ∉ (Decimal.plain x).toList) ∧
    (∀ x y : Float, ¬x.isNaN → ¬y.isNaN → Decimal.plain x = Decimal.plain y →
      x.toBits = y.toBits) ∧
    (∀ r ∈ groupsInARow.ratings, ¬r.isNaN) ∧ (∀ r ∈ groupsNested.ratings, ¬r.isNaN) ∧
    groupsInARow.structure Decimal.plain ≠ groupsNested.structure Decimal.plain := by
  have in_a_row : ∀ r ∈ groupsInARow.ratings, ¬r.isNaN := by
    decide +kernel
  have nested : ∀ r ∈ groupsNested.ratings, ¬r.isNaN := by
    decide +kernel
  have faithful := structure_eq_iff_shape_eq Decimal.plain Decimal.not_mem_plain
    (fun _ _ => Decimal.plain_inj) groupsInARow groupsNested in_a_row nested
  refine ⟨Decimal.not_mem_plain, fun _ _ => Decimal.plain_inj, in_a_row, nested, fun same => ?_⟩
  have shapes := (faithful.mp same).1
  simp only [groupsInARow, groupsNested, Chain.shape_link, Chain.shape_last, Chain.link.injEq,
    reduceCtorEq, and_false] at shapes

end SeriesParallel
