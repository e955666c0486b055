import SeriesParallel.Proofs.Circuit.Invariant
import SeriesParallel.Proofs.Description.Segments
import SeriesParallel.Proofs.Network.Resistors
import SeriesParallel.Proofs.Topology.Parsing
import SeriesParallel.Proofs.Topology.Symbols

/-!
# Circuit — every value of a line is a resistor

No resistor is lost, doubled, altered or moved on the way from a line to its
circuit: parsing has one resistor for each value of the topology, in order, and
the canonical form, solving and labelling keep them.
-/

namespace SeriesParallel

/-! ## The values of a phrase -/

/-- The text of a value; no other symbol has one. -/
def Symbol.value? : Symbol → Option String
  | value t => some t
  | _ => none

/-- The texts of the values among some symbols, in order. -/
def valueTexts (ss : List Symbol) : List String := ss.filterMap Symbol.value?

theorem valueTexts_append (ss ss' : List Symbol) :
    valueTexts (ss ++ ss') = valueTexts ss ++ valueTexts ss' := List.filterMap_append

/-- A symbol that may be left out is no value. -/
theorem valueTexts_optional {s : Symbol} (hs : s.value? = none) (written : Bool) :
    valueTexts (s.optional written) = [] := by
  cases written <;> simp [Symbol.optional, valueTexts, hs]

theorem mem_valueTexts {ss : List Symbol} {t : String} : t ∈ valueTexts ss ↔ .value t ∈ ss := by
  rw [valueTexts, List.mem_filterMap]
  constructor
  · intro h
    obtain ⟨s, hs, ht⟩ := h
    cases s <;> cases ht
    exact hs
  · intro h
    exact ⟨_, h, rfl⟩

mutual

/-- An element stands for one resistor a value. -/
theorem ElementPhrase.ratings_element : (e : ElementPhrase) →
    (Chain.last e.element).ratings = (valueTexts e.yield).map resistanceOf
  | .value _ => Chain.ratings_resistor ..
  | .group g => (Chain.ratings_group ..).trans g.ratings_branches

/-- A chain stands for one resistor a value. -/
theorem SeriesPhrase.ratings_chain : (s : SeriesPhrase) →
    s.chain.ratings = (valueTexts s.yield).map resistanceOf
  | .one e => e.ratings_element
  | .more e dotted s => by
    rw [SeriesPhrase.chain, Chain.ratings_link, e.ratings_element, s.ratings_chain,
      SeriesPhrase.yield, valueTexts_append, valueTexts_append, valueTexts_optional rfl,
      List.nil_append, List.map_append]

/-- The branches of a group stand for one resistor a value. -/
theorem GroupPhrase.ratings_branches : (g : GroupPhrase) →
    g.branches.flatMap Chain.ratings = (valueTexts g.yield).map resistanceOf
  | .last s closed => by
    rw [GroupPhrase.branches, List.flatMap_singleton, s.ratings_chain, GroupPhrase.yield,
      valueTexts_append, valueTexts_optional rfl, List.append_nil]
  | .more s g => by
    have comma : valueTexts (.comma :: g.yield) = valueTexts g.yield := rfl
    rw [GroupPhrase.branches, List.flatMap_cons, s.ratings_chain, g.ratings_branches,
      GroupPhrase.yield, valueTexts_append, comma, List.map_append]

end

/-! ## The values of a topology -/

/-- The value of a resistance is the number that is read. -/
theorem IsResistance.readValue?_eq {t : String} (h : IsResistance t) :
    readValue? t = some (resistanceOf t) := by
  obtain ⟨r, hr, -⟩ := h
  rw [resistanceOf, hr, Option.getD_some]

/-- **Parsing has one resistor for each value**, with the resistance that the
value reads as. -/
theorem ratings_parseTopology {text : String} {position : Nat} {c : Chain Float}
    (h : parseTopology text position = .ok c) :
    c.ratings.map some = (valueTexts (topologySymbols text position)).map readValue? := by
  obtain ⟨root, hroot, rfl⟩ := parse_eq_ok.mp h
  obtain ⟨hvalues, g, ⟨hyield, -⟩, rfl⟩ := Progress.follows_start.exists_derivation hroot
  have whole : (Chain.last (.parallel g.branches)).ratings
      = (valueTexts (topologySymbols text position)).map resistanceOf := by
    rw [Element.parallel, Chain.ratings_group, g.ratings_branches, hyield]
    rfl
  rw [whole, List.map_map]
  refine List.map_congr_left fun t ht => ?_
  exact (hvalues t (mem_valueTexts.mp ht)).readValue?_eq.symm

/-! ## The values of a line -/

/-- Building a circuit keeps the resistances of its description. -/
theorem Circuit.ratings_root {R : Type} [Quantity R] {d : Description R} {c : Circuit R}
    (h : ofDescription d = .ok c) : c.root.ratings = d.topology.ratings := by
  obtain ⟨-, totals, -, rfl⟩ := ofDescription_eq_ok_iff.mp h
  show (((d.topology.normalize.propagate totals.current).assignLabels {}).1).ratings = _
  rw [Chain.ratings_assignLabels, Chain.ratings_propagate, Chain.ratings_normalize]

/-- **Resistors are conserved.** Collapsing, flattening and normalizing leave
the resistors of any network as they are, in order. So the resistors of a
circuit that a line describes have the resistances that the values of its
topology read as, in order and one for one. -/
theorem resistors_conserved :
    (∀ (R : Type) (c : Chain R), c.collapse.resistors = c.resistors ∧
      c.flatten.resistors = c.resistors ∧ c.normalize.resistors = c.resistors) ∧
    ∀ (input : String) (circuit : Circuit Float), Circuit.parse input = .ok circuit →
      ∃ name source topology, Description.Segments input name source topology ∧
        ∀ position, circuit.root.resistors.map Element.rating?
          = (valueTexts (topologySymbols (String.ofList topology) position)).map readValue? := by
  refine ⟨fun R c => ⟨c.resistors_collapse, c.resistors_flatten, c.resistors_normalize⟩,
    fun input circuit h => ?_⟩
  obtain ⟨d, hd, hcircuit⟩ := bind_eq_ok h
  obtain ⟨name, source, topology, segments⟩ := Description.exists_segments hd
  refine ⟨name, source, topology, segments, fun position => ?_⟩
  rw [segments.parse_eq] at hd
  obtain ⟨supply, -, hd⟩ := bind_eq_ok hd
  obtain ⟨root, hroot, hd⟩ := bind_eq_ok hd
  cases hd
  -- the symbols are the same ones wherever the topology starts
  have moved (position' : Nat) : topologySymbols (String.ofList topology) position'
      = textSymbols topology := by
    rw [topologySymbols, Lexer.map_symbol_tokens, Lexer.ofString, String.toList_ofList]
  rw [Chain.map_rating?_resistors, Circuit.ratings_root hcircuit, ratings_parseTopology hroot,
    moved, moved]

/-- Groups that the canonical form takes apart: one around the whole topology,
and one beside a value. -/
theorem resistors_conserved_nestedGroups :
    ∃ circuit, Circuit.parse "bench:V.12:1k.:220,:330,47" = .ok circuit ∧
      ∃ name source topology,
        Description.Segments "bench:V.12:1k.:220,:330,47" name source topology ∧
        ∀ position, circuit.root.resistors.map Element.rating?
          = (valueTexts (topologySymbols (String.ofList topology) position)).map readValue? := by
  have parsed : (Circuit.parse "bench:V.12:1k.:220,:330,47").isOk := by decide +kernel
  obtain ⟨circuit, h⟩ := exists_eq_ok_of_isOk parsed
  exact ⟨circuit, h, resistors_conserved.2 _ circuit h⟩

end SeriesParallel
