import SeriesParallel.Network.Normal
import SeriesParallel.Proofs.Network.Components

/-!
# Network — the netlist

The electrical network of a tree is a **netlist**: its resistors, each between
two junctions. Junctions are numbered. A chain has a junction of its own
between an element and what follows it; the branches of a group all share the
two junctions of the group.
-/

namespace SeriesParallel

variable {R : Type}

/-! ## Resistors and junctions -/

/-- A resistor between two junctions: that at its top and that at its bottom. -/
structure Edge where
  label : String
  upper : Nat
  lower : Nat
  deriving Repr, DecidableEq

mutual

/-- The resistors of an element from junction `i` to junction `o`. Junctions
inside get the numbers from `n` on; answers with the next number as well. -/
def Element.netlist (i o n : Nat) : Element R → List Edge × Nat
  | .resistor l _ _ => ([⟨l, i, o⟩], n)
  | .group _ _ bs => branchNetlists i o n bs

/-- The resistors of a chain: its head goes to a new junction, and the rest
goes on from there. -/
def Chain.netlist (i o n : Nat) : Chain R → List Edge × Nat
  | .last e => e.netlist i o n
  | .link e c =>
    let (above, next) := e.netlist i n (n + 1)
    let (below, next) := c.netlist n o next
    (above ++ below, next)

/-- The resistors of branches, all of them from `i` to `o`. -/
def branchNetlists (i o n : Nat) : List (Chain R) → List Edge × Nat
  | [] => ([], n)
  | b :: bs =>
    let (first, next) := b.netlist i o n
    let (others, next) := branchNetlists i o next bs
    (first ++ others, next)

end

/-- The resistors of a whole network from junction 0 to junction 1. -/
def Chain.edges (c : Chain R) : List Edge := (c.netlist 0 1 2).1

/-- A place where the network can be touched: a terminal of the supply, or an
end of a resistor. -/
inductive Terminal where
  | leadIn
  | leadOut
  | top (label : String)
  | bottom (label : String)
  deriving Repr, DecidableEq

/-- A terminal is at a junction of the network. -/
inductive Chain.Meets (c : Chain R) : Terminal → Nat → Prop
  | leadIn : Meets c .leadIn 0
  | leadOut : Meets c .leadOut 1
  | top {e : Edge} : e ∈ c.edges → Meets c (.top e.label) e.upper
  | bottom {e : Edge} : e ∈ c.edges → Meets c (.bottom e.label) e.lower

/-- Two terminals are at the same junction of the network. -/
def Chain.SameJunction (c : Chain R) (t t' : Terminal) : Prop := ∃ j, c.Meets t j ∧ c.Meets t' j

theorem Chain.meets_top_iff {c : Chain R} {l : String} {j : Nat} :
    c.Meets (.top l) j ↔ ∃ e ∈ c.edges, e.label = l ∧ e.upper = j := by
  constructor
  · intro h
    cases h with
    | top he => exact ⟨_, he, rfl, rfl⟩
  · intro h
    obtain ⟨e, he, rfl, rfl⟩ := h
    exact .top he

theorem Chain.meets_bottom_iff {c : Chain R} {l : String} {j : Nat} :
    c.Meets (.bottom l) j ↔ ∃ e ∈ c.edges, e.label = l ∧ e.lower = j := by
  constructor
  · intro h
    cases h with
    | bottom he => exact ⟨_, he, rfl, rfl⟩
  · intro h
    obtain ⟨e, he, rfl, rfl⟩ := h
    exact .bottom he

/-! ## Numbers -/

theorem le_branchNetlists {bs : List (Chain R)}
    (h : ∀ b ∈ bs, ∀ i o n, n ≤ (b.netlist i o n).2) (i o n : Nat) :
    n ≤ (branchNetlists i o n bs).2 := by
  induction bs generalizing n with
  | nil => exact Nat.le_refl _
  | cons b bs ih =>
    have first := h b List.mem_cons_self i o n
    have others := ih (fun b' hb => h b' (List.mem_cons_of_mem _ hb)) (b.netlist i o n).2
    exact Nat.le_trans first others

/-- Numbers go up. -/
theorem Chain.le_netlist (c : Chain R) (i o n : Nat) : n ≤ (c.netlist i o n).2 := by
  induction c using Chain.inductionOn generalizing i o n with
  | resistor l v r => exact Nat.le_refl _
  | group l v bs ih => exact le_branchNetlists ih i o n
  | link e c he hc =>
    have above : n + 1 ≤ (e.netlist i n (n + 1)).2 := he i n (n + 1)
    have below := hc n o (e.netlist i n (n + 1)).2
    show n ≤ (c.netlist n o (e.netlist i n (n + 1)).2).2
    omega

/-! ## Labels -/

/-- The labels of the resistors of a network, in canonical order. -/
def Chain.resistorLabels (c : Chain R) : List String :=
  (c.components.filter Element.isResistor).map Element.label

namespace Chain

theorem resistorLabels_eq_map (c : Chain R) :
    c.resistorLabels = c.resistors.map Element.label := rfl

theorem resistorLabels_resistor (l : String) (v : Reading R) (r : R) :
    (last (.resistor l v r)).resistorLabels = [l] := by
  rw [resistorLabels_eq_map, resistors_resistor]
  rfl

theorem resistorLabels_group (l : String) (v : Reading R) (bs : List (Chain R)) :
    (last (.group l v bs)).resistorLabels = bs.flatMap resistorLabels := by
  rw [resistorLabels_eq_map, resistors_group, List.map_flatMap]
  rfl

theorem resistorLabels_link (e : Element R) (c : Chain R) :
    (link e c).resistorLabels = (last e).resistorLabels ++ c.resistorLabels := by
  simp only [resistorLabels_eq_map, resistors_link, List.map_append]

end Chain

theorem map_label_branchNetlists {bs : List (Chain R)}
    (h : ∀ b ∈ bs, ∀ i o n, (b.netlist i o n).1.map Edge.label = b.resistorLabels)
    (i o n : Nat) :
    (branchNetlists i o n bs).1.map Edge.label = bs.flatMap Chain.resistorLabels := by
  induction bs generalizing n with
  | nil => rfl
  | cons b bs ih =>
    have others := ih (fun b' hb => h b' (List.mem_cons_of_mem _ hb)) (b.netlist i o n).2
    rw [branchNetlists, List.map_append, h b List.mem_cons_self, others, List.flatMap_cons]

/-- **The netlist holds every resistor once**, in canonical order. -/
theorem Chain.map_label_netlist (c : Chain R) (i o n : Nat) :
    (c.netlist i o n).1.map Edge.label = c.resistorLabels := by
  induction c using Chain.inductionOn generalizing i o n with
  | resistor l v r => rw [resistorLabels_resistor]; rfl
  | group l v bs ih =>
    rw [resistorLabels_group]
    exact map_label_branchNetlists ih i o n
  | link e c he hc =>
    have above : (e.netlist i n (n + 1)).1.map Edge.label = (last e).resistorLabels :=
      he i n (n + 1)
    rw [netlist, List.map_append, above, hc, resistorLabels_link]

/-! ## Branching networks -/

/-- Every group, at every depth, has two branches or more. -/
def Chain.Branching (c : Chain R) : Prop :=
  ∀ e ∈ c.components, e.isResistor = false → 2 ≤ e.branches.length

namespace Chain

variable {c : Chain R}

/-- A canonical network without empty groups branches at every group. -/
theorem branching_of_isCanonical (canonical : c.isCanonical) (nonempty : c.NoEmptyGroup) :
    c.Branching := by
  intro e he hgroup
  have settled : e.isSettled := by
    obtain ⟨b, hb, rfl⟩ := List.mem_map.mp he
    exact List.all_eq_true.mp canonical b hb
  cases e with
  | resistor l v r => simp [Element.isResistor] at hgroup
  | group l v bs =>
    have not_one : bs.length ≠ 1 := by
      simp only [Element.isSettled, Bool.and_eq_true, bne_iff_ne] at settled
      exact settled.1
    have not_nil : bs ≠ [] := by
      intro hnil
      exact absurd (nonempty _ he hnil) (by simp [Element.isResistor])
    have := List.length_pos_iff.mpr not_nil
    show 2 ≤ bs.length
    omega

theorem Branching.two_le {l : String} {v : Reading R} {bs : List (Chain R)}
    (h : (last (.group l v bs)).Branching) : 2 ≤ bs.length := by
  apply h (.group l v bs) _ rfl
  rw [components_group]
  exact List.mem_cons_self

theorem Branching.branch {l : String} {v : Reading R} {bs : List (Chain R)} {b : Chain R}
    (h : (last (.group l v bs)).Branching) (hb : b ∈ bs) : b.Branching := by
  intro e he
  exact h e (mem_components_group hb he)

theorem Branching.link {e : Element R} (h : (link e c).Branching) :
    (last e).Branching ∧ c.Branching :=
  ⟨fun x hx => h x (components_last_subset e c hx), fun x hx => h x (components_rest_subset e c hx)⟩

end Chain

end SeriesParallel
