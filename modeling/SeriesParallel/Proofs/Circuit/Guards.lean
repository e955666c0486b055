import SeriesParallel.Proofs.Circuit.Conservation
import SeriesParallel.Proofs.Description.Positions

/-!
# Circuit — guards that nothing reaches

Three failures are there as guards. A chain can only be followed by a separator
or by the end of the text, so no separator is ever missed; groups are parsed
with a branch at least and resistors with a number that is not negative, and
the canonical form of such a network has two branches in every group. So what
validation refuses on the way from a line to its circuit is always a branch.
-/

namespace SeriesParallel

/-- The failures that are there as guards: a missing separator, a group of fewer
than two branches, and a resistance that is negative or not a number. -/
def Failure.isGuard {R : Type} : Failure R → Bool
  | .malformed _ (.missingSeparator _) => true
  | .degenerate (.fewBranches _) => true
  | .degenerate (.badResistance _) => true
  | _ => false

/-! ## Reading a topology -/

namespace Draft

variable {d : Draft} {t : Token} {e : Failure Float} {position : Nat}

theorem unguarded_endSeries {g : OpenGroup} (h : g.endSeries position = .error e) :
    e.isGuard = false := by
  rw [endSeries_eq_error h]
  rfl

theorem unguarded_readResistor {text : String} (h : readResistor text position = .error e) :
    e.isGuard = false := by
  unfold readResistor at h
  split at h
  · cases h
    rfl
  · split at h <;> cases h
    rfl

/-- **Behind a chain stands a separator**, unless it is the end of the text. -/
theorem unguarded_step (ht : t.symbol ≠ .finish) (h : d.step t = .error e) : e.isGuard = false := by
  unfold step at h
  split at h
  next text _ =>
    cases hr : readResistor text t.position with
    | error e' =>
      rw [hr] at h
      cases h
      exact unguarded_readResistor hr
    | ok r =>
      rw [hr] at h
      cases h
  · cases h
  next not_value not_colon =>
    split at h
    · cases h
      rfl
    · split at h
      · split at h <;> cases h
        rfl
      next not_dot =>
        obtain hg | ⟨g, -, h⟩ := bind_eq_error h
        · exact unguarded_endSeries hg
        · -- what is left of the symbols are the two separators
          cases hs : t.symbol with
          | comma | semicolon =>
            rw [hs] at h
            cases h
          | value text => exact absurd hs (not_value text)
          | colon => exact absurd hs not_colon
          | dot => exact absurd hs not_dot
          | finish => exact absurd hs ht

theorem unguarded_closeAll {root : Element Float} {gs : List OpenGroup}
    (h : closeAll position root gs = .error e) : e.isGuard = false := by
  induction gs generalizing root with
  | nil => cases h
  | cons g gs ih =>
    obtain hg | ⟨g', -, h⟩ := bind_eq_error h
    · exact unguarded_endSeries hg
    · exact ih h

theorem unguarded_finish (h : d.finish position = .error e) : e.isGuard = false := by
  unfold finish at h
  split at h
  · cases h
    rfl
  · obtain hg | ⟨g, -, h⟩ := bind_eq_error h
    · exact unguarded_endSeries hg
    · exact unguarded_closeAll h

end Draft

theorem TokenStream.unguarded_run {finish : Nat} {d : Draft} {ts rest : List Token}
    {e : Failure Float} (hts : ∀ t ∈ ts, t.symbol ≠ .finish)
    (h : run finish d ts = (.error e, rest)) : e.isGuard = false := by
  induction ts generalizing d with
  | nil => exact Draft.unguarded_finish (congrArg Prod.fst h)
  | cons t ts ih =>
    rw [List.forall_mem_cons] at hts
    rw [run] at h
    cases hstep : d.step t with
    | error e' =>
      rw [hstep] at h
      cases h
      exact Draft.unguarded_step hts.1 hstep
    | ok p =>
      rw [hstep] at h
      cases p with
      | closed root => cases h
      | reading d' => exact ih hts.2 h

/-- **No separator is missed in a topology.** -/
theorem unguarded_parseTopology {text : String} {position : Nat} {e : Failure Float}
    (h : parseTopology text position = .error e) : e.isGuard = false := by
  simp only [parseTopology, TokenStream.parse] at h
  split at h
  next e' ts hrun =>
    cases h
    exact TokenStream.unguarded_run (fun _ => Lexer.symbol_ne_finish) hrun
  · cases h
  · cases h
    rfl

/-! ## Reading a line -/

theorem Supply.unguarded_parse {text : String} {position : Nat} {e : Failure Float}
    (h : parse text position = .error e) : e.isGuard = false := by
  rcases parse_cases text with ⟨kind, mark, m, -, -, read⟩ | refused
  · rw [read, ofMagnitude] at h
    split at h
    · cases h
      rfl
    · split at h <;> cases h
      rfl
  · cases h.symm.trans (refused position)
    rfl

theorem Description.unguarded_parse {input : String} {e : Failure Float}
    (h : parse input = .error e) : e.isGuard = false := by
  rcases segments_or_missing input with ⟨name, source, topology, segments⟩ | missing
  · rw [segments.parse_eq] at h
    obtain hsource | ⟨s, -, h⟩ := bind_eq_error h
    · exact Supply.unguarded_parse hsource
    · obtain htopology | ⟨root, -, h⟩ := bind_eq_error h
      · exact unguarded_parseTopology htopology
      · cases h
  · cases h.symm.trans missing
    rfl

/-! ## What is parsed -/

mutual

theorem ElementPhrase.noEmptyGroup_element : (e : ElementPhrase) →
    (Chain.last e.element).NoEmptyGroup
  | .value _ => Chain.noEmptyGroup_resistor _ _ _
  | .group g => Chain.noEmptyGroup_group g.branches_ne_nil g.noEmptyGroup_branches

theorem SeriesPhrase.noEmptyGroup_chain : (s : SeriesPhrase) → s.chain.NoEmptyGroup
  | .one e => e.noEmptyGroup_element
  | .more e _ s => Chain.noEmptyGroup_link e.noEmptyGroup_element s.noEmptyGroup_chain

/-- A group is written with a branch at least. -/
theorem GroupPhrase.branches_ne_nil : (g : GroupPhrase) → g.branches ≠ []
  | .last _ _ => List.cons_ne_nil _ _
  | .more _ _ => List.cons_ne_nil _ _

/-- **No group that is written is empty**, at any depth. -/
theorem GroupPhrase.noEmptyGroup_branches : (g : GroupPhrase) →
    ∀ b ∈ g.branches, b.NoEmptyGroup
  | .last s _ => List.forall_mem_singleton.mpr s.noEmptyGroup_chain
  | .more s g => List.forall_mem_cons.mpr ⟨s.noEmptyGroup_chain, g.noEmptyGroup_branches⟩

end

/-- **What is parsed has no empty group, and its resistors are rated with
numbers that are not negative.** -/
theorem noEmptyGroup_parseTopology {text : String} {position : Nat} {c : Chain Float}
    (h : parseTopology text position = .ok c) :
    c.NoEmptyGroup ∧ ∀ r ∈ c.ratings, r.isFinite ∧ ¬r < 0 := by
  obtain ⟨root, hroot, rfl⟩ := parse_eq_ok.mp h
  obtain ⟨hvalues, g, ⟨hyield, -⟩, rfl⟩ := Progress.follows_start.exists_derivation hroot
  refine ⟨Chain.noEmptyGroup_group g.branches_ne_nil g.noEmptyGroup_branches, fun r hr => ?_⟩
  rw [Element.parallel, Chain.ratings_group, g.ratings_branches, hyield] at hr
  obtain ⟨t, ht, rfl⟩ := List.mem_map.mp hr
  obtain ⟨r, hr, accepted⟩ := hvalues t (mem_valueTexts.mp ht)
  rwa [resistanceOf, hr]

/-! ## What validation refuses -/

section

variable {R : Type} [Quantity R]

/-- A branch of a group of a network cannot be solved, for the cause given: it
has no resistance, or one that is not a number. -/
inductive Chain.FaultyBranch (c : Chain R) : Degeneracy R → Prop
  | short {place b : Chain R} {i : Nat} : place ∈ c.preOrder → place.head.branches[i]? = some b →
      (b.resistance == 0) = true → FaultyBranch c (.shortBranch (i + 1) place)
  | unbounded {place b : Chain R} {i : Nat} : place ∈ c.preOrder →
      place.head.branches[i]? = some b → Quantity.isFinite b.resistance = false →
      FaultyBranch c (.unboundedBranch (i + 1) place)

/-- The branch that a check refuses is behind those that it has passed. -/
theorem checkBranches_eq_error {place : Chain R} {index : Nat} {bs : List (Chain R)}
    {cause : Degeneracy R} (h : checkBranches place index bs = .error cause) :
    ∃ i b, bs[i]? = some b ∧
      (cause = .shortBranch (index + i + 1) place ∧ (b.resistance == 0) = true ∨
        cause = .unboundedBranch (index + i + 1) place ∧
          Quantity.isFinite b.resistance = false) := by
  induction bs generalizing index with
  | nil => cases h
  | cons b bs ih =>
    rw [checkBranches] at h
    split at h
    next hzero =>
      cases h
      exact ⟨0, b, rfl, .inl ⟨rfl, hzero⟩⟩
    · split at h
      next hfinite =>
        cases h
        exact ⟨0, b, rfl, .inr ⟨rfl, by simpa using hfinite⟩⟩
      · obtain ⟨i, b', hb, refused⟩ := ih h
        refine ⟨i + 1, b', hb, ?_⟩
        rw [Nat.add_right_comm index 1 i] at refused
        exact refused

theorem checkPlaces_eq_error {places : List (Chain R)} {cause : Degeneracy R}
    (h : checkPlaces places = .error cause) : ∃ place ∈ places, place.checkHead = .error cause := by
  induction places with
  | nil => cases h
  | cons place places ih =>
    rw [checkPlaces] at h
    obtain refused | ⟨-, -, h⟩ := bind_eq_error h
    · exact ⟨place, List.mem_cons_self, refused⟩
    · obtain ⟨place', hplace, refused⟩ := ih h
      exact ⟨place', List.mem_cons_of_mem _ hplace, refused⟩

/-- **Where every group branches and every resistor is rated with a number that
is not negative, validation refuses branches only.** -/
theorem Chain.validate_eq_error {c : Chain R} {e : Failure R} (branching : c.Branching)
    (rated : ∀ r ∈ c.ratings, Quantity.isFinite r ∧ ¬r < 0) (h : c.validate = .error e) :
    ∃ cause, e = .degenerate cause ∧ c.FaultyBranch cause := by
  unfold validate at h
  cases checked : checkPlaces c.preOrder with
  | ok u =>
    rw [checked] at h
    cases h
  | error cause =>
    rw [checked] at h
    cases h
    refine ⟨cause, rfl, ?_⟩
    obtain ⟨place, hplace, refused⟩ := checkPlaces_eq_error checked
    have component : place.head ∈ c.components := List.mem_map_of_mem hplace
    unfold checkHead at refused
    cases hhead : place.head with
    | resistor l v r =>
      rw [hhead] at refused component
      have number := rated r (List.mem_filterMap.mpr ⟨_, component, rfl⟩)
      simp [number] at refused
    | group l v bs =>
      rw [hhead] at refused component
      have enough : ¬bs.length < 2 := Nat.not_lt_of_le (branching _ component rfl)
      simp only [if_neg enough] at refused
      obtain ⟨i, b, hb, ⟨rfl, hzero⟩ | ⟨rfl, hfinite⟩⟩ := checkBranches_eq_error refused
      · rw [Nat.zero_add]
        exact .short hplace (hhead ▸ hb) hzero
      · rw [Nat.zero_add]
        exact .unbounded hplace (hhead ▸ hb) hfinite

theorem Chain.FaultyBranch.unguarded {c : Chain R} {cause : Degeneracy R}
    (h : c.FaultyBranch cause) : (Failure.degenerate cause).isGuard = false := by
  cases h <;> rfl

theorem Supply.unguarded_resolve {s : Supply R} {resistance : R} {e : Failure R}
    (h : s.resolve resistance = .error e) : e.isGuard = false := by
  have totals {voltage current : R} (h : s.totals resistance voltage current = .error e) :
      e.isGuard = false := by
    simp only [Supply.totals] at h
    split at h <;> cases h
    rfl
  unfold resolve at h
  split at h
  · cases h
    rfl
  · split at h
    · split at h
      · cases h
        rfl
      · split at h
        · cases h
          rfl
        · exact totals h
    · split at h
      · cases h
        rfl
      · exact totals h

end

/-! ## From a line to its circuit -/

/-- **The canonical form of what a line describes is refused for a branch**, if
it is refused. -/
theorem Description.validate_eq_error {input : String} {d : Description Float} {e : Failure Float}
    (hd : parse input = .ok d) (h : d.topology.normalize.validate = .error e) :
    ∃ cause, e = .degenerate cause ∧ d.topology.normalize.FaultyBranch cause := by
  obtain ⟨name, source, topology, segments⟩ := exists_segments hd
  rw [segments.parse_eq] at hd
  obtain ⟨supply, -, hd⟩ := bind_eq_ok hd
  obtain ⟨root, hroot, hd⟩ := bind_eq_ok hd
  cases hd
  obtain ⟨nonempty, rated⟩ := noEmptyGroup_parseTopology hroot
  refine Chain.validate_eq_error nonempty.branching_normalize (fun r hr => ?_) h
  rw [Chain.ratings_normalize] at hr
  exact rated r hr

/-- **Guards that nothing reaches.** No line fails for a missing separator, for
a group of fewer than two branches or for a resistance that is not a number or
is negative. Whatever line is read, validation refuses the canonical form of
its network only for a branch of a group: one without resistance, or with a
resistance that is not finite. -/
theorem parse_fails_unguarded (input : String) :
    (∀ e, Circuit.parse input = .error e →
      (∀ position text, e ≠ .malformed position (.missingSeparator text)) ∧
      (∀ place, e ≠ .degenerate (.fewBranches place)) ∧
      ∀ r, e ≠ .degenerate (.badResistance r)) ∧
    ∀ d, Description.parse input = .ok d → ∀ e, d.topology.normalize.validate = .error e →
      ∃ cause, e = .degenerate cause ∧ d.topology.normalize.FaultyBranch cause := by
  refine ⟨fun e h => ?_, fun d hd e h => Description.validate_eq_error hd h⟩
  have unguarded : e.isGuard = false := by
    obtain hd | ⟨d, hd, h⟩ := bind_eq_error h
    · exact Description.unguarded_parse hd
    · obtain refused | ⟨-, -, h⟩ := bind_eq_error h
      · obtain ⟨cause, rfl, faulty⟩ := Description.validate_eq_error hd refused
        exact faulty.unguarded
      · obtain refused | ⟨totals, -, h⟩ := bind_eq_error h
        · exact Supply.unguarded_resolve refused
        · cases h
  refine ⟨?_, ?_, ?_⟩
  · rintro position text rfl
    cases unguarded
  · rintro place rfl
    cases unguarded
  · rintro r rfl
    cases unguarded

/-- Two zero-ohm resistors in a group on its own beside a resistor: the groups
become one, and its second branch is refused. -/
theorem parse_fails_unguarded_splicedWire :
    ∃ e, Circuit.parse "X:V.12:100.:220,:0,0;" = .error e ∧
      (∀ place, e ≠ .degenerate (.fewBranches place)) ∧
      ∃ d, Description.parse "X:V.12:100.:220,:0,0;" = .ok d ∧
        ∃ e', d.topology.normalize.validate = .error e' ∧
          ∃ cause, e' = .degenerate cause ∧ d.topology.normalize.FaultyBranch cause := by
  obtain ⟨guards, branches⟩ := parse_fails_unguarded "X:V.12:100.:220,:0,0;"
  have refused : (Circuit.parse "X:V.12:100.:220,:0,0;").isOk = false := by decide +kernel
  have read : (Description.parse "X:V.12:100.:220,:0,0;").isOk := by decide +kernel
  obtain ⟨d, hd⟩ := exists_eq_ok_of_isOk read
  have faulty : ∀ d ∈ (Description.parse "X:V.12:100.:220,:0,0;").toOption,
      d.topology.normalize.validate.isOk = false := by decide +kernel
  have faulty := faulty d (by rw [hd]; rfl)
  cases h : Circuit.parse "X:V.12:100.:220,:0,0;" with
  | ok c =>
    rw [h] at refused
    cases refused
  | error e =>
    cases hv : d.topology.normalize.validate with
    | ok u =>
      rw [hv] at faulty
      cases faulty
    | error e' => exact ⟨e, rfl, (guards e h).2.1, d, hd, e', hv, branches d hd e' hv⟩

end SeriesParallel
