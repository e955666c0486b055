import Mathlib.Data.List.Lex
import SeriesParallel.Proofs.Network.Components

/-!
# Network — places by their addresses

Equal parts can stand at several places of a network. What tells the places
apart is their **address**: the turns that lead there, into a branch of an
element or on to the rest of its chain. In canonical order a place comes before
those that its address leads on to, branches come in order, and all of them
before the rest of the chain.

The walk visits every address of a network once, in this order.
-/

namespace SeriesParallel

variable {R : Type}

/-! ## Addresses -/

/-- A turn from a place of a network: into a branch of the element there, or on
to the rest of its chain. -/
inductive Turn where
  | branch (index : Nat)
  | rest
  deriving Repr, DecidableEq

/-- Branches come in order, before the rest of the chain. -/
inductive Turn.Before : Turn → Turn → Prop where
  | branches {i j : Nat} (h : i < j) : Before (.branch i) (.branch j)
  | rest (i : Nat) : Before (.branch i) .rest

theorem Turn.Before.irrefl (t : Turn) : ¬t.Before t := by
  rintro ⟨h⟩
  exact Nat.lt_irrefl _ h

/-- The turns from the start of a network to one of its places. -/
abbrev Address := List Turn

/-- Canonical order: by the first turn that differs, an address before those it
is a part of. -/
def Address.Before (a b : Address) : Prop := List.Lex Turn.Before a b

namespace Chain

/-- The place that a turn leads to. -/
def turn? (c : Chain R) : Turn → Option (Chain R)
  | .branch i => c.head.branches[i]?
  | .rest => c.rest?

/-- The place at an address. -/
def at? (c : Chain R) : Address → Option (Chain R)
  | [] => some c
  | t :: a => (c.turn? t).bind (·.at? a)

/-! ## Turns -/

/-- The turns that can be taken from a place, in order, and where they lead. -/
def turns (c : Chain R) : List (Turn × Chain R) :=
  (c.head.branches.zipIdx.map fun (b, i) => (.branch i, b)) ++ c.rest?.toList.map (.rest, ·)

theorem mem_turns {c : Chain R} {x : Turn × Chain R} : x ∈ c.turns ↔ c.turn? x.1 = some x.2 := by
  obtain ⟨t, d⟩ := x
  cases t <;> simp [turns, turn?, List.mem_zipIdx_iff_getElem?]

/-- The turns from a place lead to what a step of the walk puts on its stack. -/
theorem map_snd_turns (c : Chain R) : c.turns.map Prod.snd = c.head.branches ++ c.rest?.toList := by
  simp only [turns, List.map_append, List.map_map]
  congr 1
  · exact List.zipIdx_map_fst 0 c.head.branches
  · exact List.map_id _

theorem pairwise_turns (c : Chain R) : c.turns.Pairwise fun x y => x.1.Before y.1 := by
  refine List.pairwise_append.mpr ⟨?_, ?_, ?_⟩
  · have indices : (c.head.branches.zipIdx.map Prod.snd).Pairwise (· < ·) := by
      rw [List.zipIdx_map_snd]
      exact List.pairwise_lt_range' 1
    rw [List.pairwise_map] at indices ⊢
    exact indices.imp .branches
  · cases c.rest? <;> simp
  · intro x hx y hy
    obtain ⟨⟨b, i⟩, -, rfl⟩ := List.mem_map.mp hx
    obtain ⟨d, -, rfl⟩ := List.mem_map.mp hy
    exact .rest i

theorem size_eq (c : Chain R) : c.size = 1 + branchSizes (c.head.branches ++ c.rest?.toList) := by
  cases c <;>
    simp [size, head, rest?, Element.size_eq, branchSizes_append, branchSizes, Nat.add_assoc]

theorem size_le_branchSizes {bs : List (Chain R)} {b : Chain R} (h : b ∈ bs) :
    b.size ≤ branchSizes bs := by
  induction bs with
  | nil => exact absurd h List.not_mem_nil
  | cons b' bs ih =>
    rw [branchSizes]
    rcases List.mem_cons.mp h with rfl | h
    · exact Nat.le_add_right _ _
    · exact Nat.le_add_left_of_le (ih h)

/-- A turn leads to a smaller part. -/
theorem size_lt_of_turn? {c d : Chain R} {t : Turn} (h : c.turn? t = some d) :
    d.size < c.size := by
  have inside : d ∈ c.head.branches ++ c.rest?.toList := by
    rw [← map_snd_turns]
    exact List.mem_map.mpr ⟨(t, d), mem_turns.mpr h, rfl⟩
  have := size_le_branchSizes inside
  rw [c.size_eq]
  omega

/-- Induction over networks along the turns from each place. -/
@[elab_as_elim]
theorem turnInduction {motive : Chain R → Prop} (c : Chain R)
    (step : ∀ c, (∀ t d, c.turn? t = some d → motive d) → motive c) : motive c :=
  step c fun _ d _ => turnInduction d step
termination_by c.size
decreasing_by exact size_lt_of_turn? ‹_›

/-! ## The addresses of a network -/

/-- The addresses of the places of a network, in canonical order. -/
def addresses (c : Chain R) : List Address :=
  [] :: c.turns.attach.flatMap fun ⟨x, _⟩ => x.2.addresses.map (x.1 :: ·)
termination_by c.size
decreasing_by exact size_lt_of_turn? (mem_turns.mp ‹_›)

theorem addresses_eq (c : Chain R) :
    c.addresses = [] :: c.turns.flatMap fun x => x.2.addresses.map (x.1 :: ·) := by
  rw [addresses]
  conv_rhs => rw [← c.turns.attach_map_subtype_val, List.flatMap_map]

/-- **The addresses are those that lead to a place.** -/
theorem mem_addresses {c : Chain R} {a : Address} : a ∈ c.addresses ↔ (c.at? a).isSome := by
  induction a generalizing c with
  | nil =>
    rw [addresses_eq]
    exact iff_of_true List.mem_cons_self rfl
  | cons t a ih =>
    rw [addresses_eq, at?]
    constructor
    · intro h
      obtain ⟨x, hx, h⟩ := List.mem_flatMap.mp (List.mem_of_ne_of_mem (List.cons_ne_nil t a) h)
      obtain ⟨a, ha, heq⟩ := List.mem_map.mp h
      cases heq
      rw [mem_turns.mp hx]
      exact ih.mp ha
    · intro h
      obtain ⟨d, hd⟩ := Option.isSome_iff_exists.mp (Option.isSome_of_isSome_bind h)
      rw [hd] at h
      exact List.mem_cons_of_mem _ (List.mem_flatMap.mpr
        ⟨(t, d), mem_turns.mpr hd, List.mem_map_of_mem (ih.mpr h)⟩)

theorem pairwise_addresses (c : Chain R) : c.addresses.Pairwise Address.Before := by
  induction c using turnInduction with
  | step c ih =>
    rw [addresses_eq]
    refine .cons (fun b hb => ?_) (List.pairwise_flatMap.mpr ⟨fun x hx => ?_, ?_⟩)
    · obtain ⟨x, -, hb⟩ := List.mem_flatMap.mp hb
      obtain ⟨a, -, rfl⟩ := List.mem_map.mp hb
      exact .nil
    · rw [List.pairwise_map]
      exact (ih x.1 x.2 (mem_turns.mp hx)).imp .cons
    · refine c.pairwise_turns.imp fun {x y} h a ha b hb => ?_
      obtain ⟨a, -, rfl⟩ := List.mem_map.mp ha
      obtain ⟨b, -, rfl⟩ := List.mem_map.mp hb
      exact .rel h

theorem nodup_addresses (c : Chain R) : c.addresses.Nodup := by
  refine c.pairwise_addresses.imp fun {a b} before => ?_
  rintro rfl
  exact List.lex_irrefl Turn.Before.irrefl a before

theorem nodes_eq_cons_flatMap (c : Chain R) :
    c.nodes = c :: c.turns.flatMap fun x => x.2.nodes := by
  rw [nodes_eq, branchNodes_eq_flatMap, ← map_snd_turns, List.flatMap_map]

/-- **The places of a network are those at its addresses**, in order. -/
theorem map_at?_addresses (c : Chain R) : c.addresses.map c.at? = c.nodes.map some := by
  induction c using turnInduction with
  | step c ih =>
    rw [addresses_eq, nodes_eq_cons_flatMap, List.map_cons, List.map_cons, List.map_flatMap,
      List.map_flatMap]
    refine congrArg (some c :: ·) (List.flatMap_congr fun x hx => ?_)
    have turn := mem_turns.mp hx
    rw [List.map_map, ← ih x.1 x.2 turn]
    refine List.map_congr_left fun a _ => ?_
    rw [Function.comp_apply, at?, turn, Option.bind_some]

/-! ## Chains within a network -/

/-- The places of a part of a network are visited in their own order. -/
theorem nodes_sublist {c d : Chain R} (h : d ∈ c.nodes) : d.nodes.Sublist c.nodes := by
  induction c using turnInduction with
  | step c ih =>
    have places := c.nodes_eq_cons_flatMap
    rw [places] at h
    rcases List.mem_cons.mp h with rfl | h
    · exact List.Sublist.refl _
    · obtain ⟨x, hx, h⟩ := List.mem_flatMap.mp h
      have part : x.2.nodes.Sublist (c.turns.flatMap fun x => x.2.nodes) :=
        List.sublist_flatten_of_mem (List.mem_map_of_mem hx)
      rw [places]
      exact ((ih x.1 x.2 (mem_turns.mp hx) h).trans part).cons c

theorem elements_sublist_components (c : Chain R) : c.elements.Sublist c.components := by
  have head (e : Element R) : [e].Sublist (last e).components := by
    cases e <;> simp
  match c with
  | last e => exact head e
  | link e c =>
    rw [components_link]
    exact (head e).append c.elements_sublist_components

end Chain

/-! ## Steps of the walk -/

/-- A walk after a number of steps; a walk that is over stays so. -/
def Walk.after : Walk R → Nat → Walk R
  | w, 0 => w
  | w, n + 1 =>
    match w.next? with
    | none => w
    | some (_, w') => w'.after n

/-- **The steps of a walk visit its places**, one each, and then none. -/
theorem Walk.next?_after (w : Walk R) (n : Nat) :
    (w.after n).next?.map Prod.fst = w.toList[n]? := by
  induction n generalizing w with
  | zero =>
    rw [after, toList]
    cases h : w.next? <;> rfl
  | succ n ih =>
    rw [after, toList]
    cases h : w.next? with
    | none => exact congrArg (Option.map Prod.fst) h
    | some step => exact ih step.2

/-- **The walk in canonical order**, for any network. It visits the first place,
the places of each branch of the element there, and the places of the rest of
the chain. Every step of it visits the next place, and none is left after as
many steps as the network has elements. So every address of a network is visited
once, in canonical order, and the elements of every chain in chain order. -/
theorem walk_visits_once (c : Chain R) :
    c.preOrder = c :: (c.head.branches.flatMap Chain.preOrder ++
      c.rest?.toList.flatMap Chain.preOrder) ∧
    (∀ n, ((Walk.mk [c]).after n).next?.map Prod.fst = c.preOrder[n]?) ∧
    c.preOrder.length = c.size ∧
    (∃ addresses : List Address, addresses.map c.at? = c.preOrder.map some ∧
      addresses.Nodup ∧ addresses.Pairwise Address.Before ∧
      ∀ a, a ∈ addresses ↔ (c.at? a).isSome) ∧
    ∀ d ∈ c.preOrder, d.elements.Sublist c.components := by
  have order : Chain.preOrder (R := R) = Chain.nodes := funext Chain.preOrder_eq_nodes
  refine ⟨?_, (Walk.mk [c]).next?_after, ?_, ⟨c.addresses, ?_, c.nodup_addresses,
    c.pairwise_addresses, fun a => Chain.mem_addresses⟩, fun d hd => ?_⟩
  · rw [order, c.nodes_eq, branchNodes_append, branchNodes_eq_flatMap, branchNodes_eq_flatMap]
  · rw [← c.length_components, Chain.components, List.length_map]
  · rw [order, c.map_at?_addresses]
  · rw [order] at hd
    have part : d.components.Sublist c.components := by
      rw [Chain.components, Chain.components, order]
      exact (Chain.nodes_sublist hd).map Chain.head
    exact d.elements_sublist_components.trans part

/-- Two resistors in series. -/
def twoInSeries : Chain Float := .link (.ofResistance 1) (.last (.ofResistance 1))

/-- A group between two resistors, whose branches are two more in series, one on
its own and an empty group. All resistors are equal. -/
def equalResistors : Chain Float :=
  .link (.ofResistance 1)
    (.link (.parallel [twoInSeries, .last (.ofResistance 1), .last (.parallel [])])
      (.last (.ofResistance 1)))

/-- Seven places are visited, the fourth one inside the first branch. -/
theorem walk_visits_once_equalResistors :
    ((Walk.mk [equalResistors]).after 3).next?.map Prod.fst
        = equalResistors.at? [.rest, .branch 0, .rest] ∧
      ((Walk.mk [equalResistors]).after 7).next?.map Prod.fst = none ∧
      twoInSeries ∈ equalResistors.preOrder ∧
      [Element.ofResistance 1, Element.ofResistance 1].Sublist equalResistors.components := by
  obtain ⟨-, steps, visits, -, chains⟩ := walk_visits_once equalResistors
  have order : equalResistors.preOrder = equalResistors.nodes := equalResistors.preOrder_eq_nodes
  have inside : twoInSeries ∈ equalResistors.preOrder := by
    rw [order]
    exact List.mem_of_getElem? (i := 2) rfl
  refine ⟨(steps 3).trans (by rw [order]; rfl), ?_, inside, chains twoInSeries inside⟩
  rw [steps 7]
  exact List.getElem?_eq_none (Nat.le_of_eq visits)

end SeriesParallel
