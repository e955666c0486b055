import Mathlib.Algebra.Order.Field.Basic
import Mathlib.Data.List.Forall2
import SeriesParallel.Proofs.Network.Outline
import SeriesParallel.Proofs.Network.Rational
import SeriesParallel.Proofs.Network.Resistors

/-!
# Network — resistance rises with every resistor

Networks of one shape have their resistors at the same places. If none of them
is rated lower in the second network, the second has no less resistance; and if
one is rated higher, it has more. The resistance of a group goes through two
reciprocals, so the argument carries along that branches have a resistance.
-/

namespace SeriesParallel

/-! ## Resistors at the same places -/

section

variable {R S : Type}

/-- The shape of a network has as many resistors as the network. -/
theorem Chain.length_ratings_shape (c : Chain R) : c.shape.ratings.length = c.ratings.length := by
  induction c using Chain.inductionOn with
  | resistor l v r =>
    have alone : (last (.resistor l v r)).shape = last (.resistor "" ⟨(), (), ()⟩ ()) := rfl
    rw [alone, ratings_resistor, ratings_resistor, List.length_singleton, List.length_singleton]
  | group l v bs ih =>
    rw [shape_last, Element.shape_group, ratings_group, ratings_group, List.length_flatMap,
      List.length_flatMap, branchShapes_eq_map, List.map_map]
    exact congrArg List.sum (List.map_congr_left ih)
  | link e c he hc =>
    rw [shape_last] at he
    rw [shape_link, ratings_link, ratings_link, List.length_append, List.length_append, he, hc]

theorem Chain.length_ratings_eq {c : Chain R} {d : Chain S} (h : c.shape = d.shape) :
    c.ratings.length = d.ratings.length := by
  rw [← c.length_ratings_shape, h, d.length_ratings_shape]

/-- Lists that correspond are in correspondence part by part. -/
theorem forall₂_of_append {r : R → S → Prop} {xs xs' : List R} {ys ys' : List S}
    (h : List.Forall₂ r (xs ++ xs') (ys ++ ys')) (hlen : xs.length = ys.length) :
    List.Forall₂ r xs ys ∧ List.Forall₂ r xs' ys' := by
  have front := List.forall₂_take_append _ ys ys' h
  have back := List.forall₂_drop_append _ ys ys' h
  rw [← hlen] at front back
  rw [List.take_left] at front
  rw [List.drop_left] at back
  exact ⟨front, back⟩

end

/-! ## Rising resistance -/

/-- The second network has no less resistance than the first, and as much only
if their resistors are rated alike. -/
def Chain.RisesTo (c d : Chain Rat) : Prop :=
  c.resistance ≤ d.resistance ∧ (c.resistance = d.resistance → c.ratings = d.ratings)

/-- **In series**: no part loses resistance, so the whole gains what a part gains. -/
theorem Chain.RisesTo.link {e f : Element Rat} {c d : Chain Rat}
    (head : (Chain.last e).RisesTo (Chain.last f)) (rest : c.RisesTo d) :
    (Chain.link e c).RisesTo (Chain.link f d) := by
  obtain ⟨head_le, head_same⟩ := head
  obtain ⟨rest_le, rest_same⟩ := rest
  rw [RisesTo, resistance_link, resistance_link, ← resistance_last e, ← resistance_last f,
    ratings_link, ratings_link]
  refine ⟨add_le_add head_le rest_le, fun equal => ?_⟩
  obtain ⟨head_eq, rest_eq⟩ := (add_eq_add_iff_eq_and_eq head_le rest_le).mp equal
  rw [head_same head_eq, rest_same rest_eq]

/-- Side by side, conductance falls where resistance rises. -/
theorem conductance_le_of_risesTo {bs ds : List (Chain Rat)} (h : List.Forall₂ Chain.RisesTo bs ds)
    (pos : ∀ b ∈ bs, 0 < b.resistance) :
    conductance ds ≤ conductance bs ∧
      (conductance ds = conductance bs → bs.flatMap Chain.ratings = ds.flatMap Chain.ratings) := by
  induction h with
  | nil => exact ⟨le_refl _, fun _ => rfl⟩
  | @cons b d bs ds first others ih =>
    obtain ⟨others_le, others_same⟩ := ih fun b' hb => pos b' (List.mem_cons_of_mem _ hb)
    obtain ⟨first_le, first_same⟩ := first
    have falls : 1 / d.resistance ≤ 1 / b.resistance :=
      one_div_le_one_div_of_le (pos b List.mem_cons_self) first_le
    rw [conductance_cons, conductance_cons, List.flatMap_cons, List.flatMap_cons]
    refine ⟨add_le_add falls others_le, fun equal => ?_⟩
    obtain ⟨first_eq, others_eq⟩ := (add_eq_add_iff_eq_and_eq falls others_le).mp equal
    rw [first_same (eq_of_one_div_eq_one_div first_eq).symm, others_same others_eq]

/-- **In parallel**: the two reciprocals turn the order around twice. -/
theorem Chain.RisesTo.group {l l' : String} {v v' : Reading Rat} {bs ds : List (Chain Rat)}
    (h : List.Forall₂ Chain.RisesTo bs ds) (pos : ∀ b ∈ bs, 0 < b.resistance)
    (conducts : 0 < conductance ds) :
    (Chain.last (.group l v bs)).RisesTo (Chain.last (.group l' v' ds)) := by
  obtain ⟨falls, same⟩ := conductance_le_of_risesTo h pos
  rw [RisesTo, resistance_last, resistance_last, Element.resistance_group_eq,
    Element.resistance_group_eq, ratings_group, ratings_group]
  exact ⟨one_div_le_one_div_of_le conducts falls,
    fun equal => same (eq_of_one_div_eq_one_div equal).symm⟩

/-- Branches of the same shapes correspond, and so do the resistors in them. -/
theorem forall₂_of_branchShapes {P : Chain Rat → Chain Rat → Prop} {bs ds : List (Chain Rat)}
    (shapes : branchShapes bs = branchShapes ds)
    (h : List.Forall₂ (· ≤ ·) (bs.flatMap Chain.ratings) (ds.flatMap Chain.ratings))
    (inside : ∀ b ∈ bs, ∀ d ∈ ds, b.shape = d.shape →
      List.Forall₂ (· ≤ ·) b.ratings d.ratings → P b d) : List.Forall₂ P bs ds := by
  induction bs generalizing ds with
  | nil =>
    cases ds with
    | nil => exact .nil
    | cons d ds => cases shapes
  | cons b bs ih =>
    cases ds with
    | nil => cases shapes
    | cons d ds =>
      rw [branchShapes_cons, branchShapes_cons, List.cons.injEq] at shapes
      rw [List.flatMap_cons, List.flatMap_cons] at h
      obtain ⟨first, others⟩ := forall₂_of_append h (Chain.length_ratings_eq shapes.1)
      refine .cons (inside b List.mem_cons_self d List.mem_cons_self shapes.1 first) ?_
      exact ih shapes.2 others fun b' hb d' hd =>
        inside b' (List.mem_cons_of_mem _ hb) d' (List.mem_cons_of_mem _ hd)

/-- Resistance rises with the ratings, through every series and every group. -/
theorem Chain.risesTo_of_ratings {c d : Chain Rat} (hc : c.Solvable) (hd : d.Solvable)
    (hshape : c.shape = d.shape) (h : List.Forall₂ (· ≤ ·) c.ratings d.ratings) :
    c.RisesTo d := by
  induction c using Chain.inductionOn generalizing d with
  | resistor l v r =>
    obtain ⟨l', v', s, rfl⟩ := of_shape_eq_resistor hshape
    rw [ratings_resistor, ratings_resistor, List.forall₂_cons] at h
    rw [RisesTo, resistance_last, resistance_last, ratings_resistor, ratings_resistor]
    exact ⟨h.1, fun equal => congrArg (fun x => [x]) equal⟩
  | group l v bs ih =>
    obtain ⟨l', v', ds, rfl, shapes⟩ := of_shape_eq_group hshape
    rw [ratings_group, ratings_group] at h
    have branches : List.Forall₂ RisesTo bs ds :=
      forall₂_of_branchShapes shapes h fun b hb d' hd' => ih b hb (hc.branch hb) (hd.branch hd')
    exact .group branches (hc.branch_pos l v bs (by simp)) hd.conductance_pos
  | link e c he hc' =>
    obtain ⟨f, d', rfl, head, rest⟩ := of_shape_eq_link hshape
    rw [ratings_link, ratings_link] at h
    obtain ⟨first, others⟩ := forall₂_of_append h (length_ratings_eq head)
    exact .link (he hc.link.1 hd.link.1 head first) (hc' hc.link.2 hd.link.2 rest others)

/-! ## A group and its branches -/

/-- A branch conducts less than its group. -/
theorem one_div_resistance_lt {bs : List (Chain Rat)} {b : Chain Rat} (hb : b ∈ bs)
    (two : 2 ≤ bs.length) (pos : ∀ b ∈ bs, 0 < b.resistance) :
    1 / b.resistance < conductance bs := by
  obtain ⟨before, after, rfl⟩ := List.append_of_mem hb
  have others : 0 < conductance (before ++ after) := by
    refine conductance_pos (List.ne_nil_of_length_pos ?_) fun d hd => pos d ?_
    · simp only [List.length_append, List.length_cons] at two ⊢
      omega
    · simp only [List.mem_append, List.mem_cons] at hd ⊢
      exact hd.imp id .inr
  have split : conductance (before ++ b :: after)
      = 1 / b.resistance + conductance (before ++ after) := by
    simp only [conductance, List.map_append, List.map_cons, List.sum_append, List.sum_cons]
    exact add_left_comm ..
  rw [split]
  exact lt_add_of_pos_right _ others

/-- **Resistance is strictly monotone.** If no resistor of an accepted network
is rated lower than the one at its place in another of the same shape, the
network has no more resistance than the other; and if one of its resistors, at
any depth, is rated lower, it has less. Every group of an accepted network has a
resistance, which is less than that of each of its branches. -/
theorem resistance_strictMono :
    (∀ c d : Chain Rat, c.validate = .ok () → d.validate = .ok () → c.shape = d.shape →
      List.Forall₂ (· ≤ ·) c.ratings d.ratings →
        c.resistance ≤ d.resistance ∧
        ∀ (i : Nat) (r s : Rat), c.ratings[i]? = some r → d.ratings[i]? = some s → r < s →
          c.resistance < d.resistance) ∧
    ∀ c : Chain Rat, c.validate = .ok () → ∀ l v bs, Element.group l v bs ∈ c.components →
      0 < (Element.group l v bs).resistance ∧
        ∀ b ∈ bs, (Element.group l v bs).resistance < b.resistance := by
  constructor
  · intro c d hc hd hshape h
    rw [Chain.validate_eq_ok_iff_solvable] at hc hd
    obtain ⟨rises, same⟩ := Chain.risesTo_of_ratings hc hd hshape h
    refine ⟨rises, fun i r s hr hs lower => lt_of_le_of_ne rises fun equal => ?_⟩
    rw [same equal, hs, Option.some.injEq] at hr
    exact lower.ne' hr
  · intro c hc l v bs hgroup
    have solvable := (Chain.validate_eq_ok_iff_solvable.mp hc).of_mem hgroup
    have two := solvable.two_branches l v bs (by simp)
    have pos := solvable.branch_pos l v bs (by simp)
    have conducts := solvable.conductance_pos
    rw [Element.resistance_group_eq]
    refine ⟨one_div_pos.mpr conducts, fun b hb => ?_⟩
    exact (one_div_lt conducts (pos b hb)).mpr (one_div_resistance_lt hb two pos)

/-- Two resistors side by side in a branch, the first of `r` ohms. -/
def nestedResistor (r : Rat) : Chain Rat :=
  .link (.ofResistance 3) (.last (.parallel
    [.link (.ofResistance 0) (.last (.parallel
      [.last (.ofResistance r), .last (.ofResistance 6)])),
      .last (.ofResistance 4)]))

theorem resistance_strictMono_nestedResistor :
    (nestedResistor 6).validate = .ok () ∧ (nestedResistor 7).validate = .ok () ∧
      (nestedResistor 6).shape = (nestedResistor 7).shape ∧
      List.Forall₂ (· ≤ ·) (nestedResistor 6).ratings (nestedResistor 7).ratings ∧
      (nestedResistor 6).resistance < (nestedResistor 7).resistance ∧
      (Element.parallel [.last (.ofResistance 7), .last (.ofResistance 6)]).resistance
        < (Chain.last (.ofResistance (6 : Rat))).resistance := by
  have hc : (nestedResistor 6).validate = .ok () :=
    (exists_eq_ok_of_isOk (by decide +kernel)).elim fun _ h => h
  have hd : (nestedResistor 7).validate = .ok () :=
    (exists_eq_ok_of_isOk (by decide +kernel)).elim fun _ h => h
  have hshape : (nestedResistor 6).shape = (nestedResistor 7).shape := rfl
  have hratings (r : Rat) : (nestedResistor r).ratings = [3, 0, r, 6, 4] := by
    simp [nestedResistor, Element.ofResistance, Element.parallel]
  have hle : List.Forall₂ (· ≤ ·) (nestedResistor 6).ratings (nestedResistor 7).ratings := by
    rw [hratings, hratings]
    norm_num
  have rises := resistance_strictMono.1 _ _ hc hd hshape hle
  refine ⟨hc, hd, hshape, hle, rises.2 2 6 7 ?_ ?_ (by norm_num), ?_⟩
  · rw [hratings]
    rfl
  · rw [hratings]
    rfl
  · have inner : Element.parallel [.last (.ofResistance 7), .last (.ofResistance 6)]
        ∈ (nestedResistor 7).components := by simp [nestedResistor, Element.parallel]
    exact (resistance_strictMono.2 _ hd _ _ _ inner).2 _ (List.mem_cons_of_mem _ List.mem_cons_self)

end SeriesParallel
