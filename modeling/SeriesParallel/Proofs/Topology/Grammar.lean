import SeriesParallel.Topology.Draft

/-!
# Topology — the grammar

The phrases of the topology notation, each with the symbols it is written with
and the part of a network it stands for:

    group   = series (',' series)*   closed by ';' or by the end of the text
    series  = element ('.'? element)*
    element = value | ':' group

What a phrase may be followed by says where a group can do without its `;`: at
the end of the text only. The grammar is unambiguous, since the symbols of a
phrase and what follows it determine both.
-/

namespace SeriesParallel

mutual

/-- A value, or a colon and a group. -/
inductive ElementPhrase where
  | value (text : String)
  | group (inside : GroupPhrase)

/-- Elements one after another, each two with or without a dot between them. -/
inductive SeriesPhrase where
  | one (element : ElementPhrase)
  | more (element : ElementPhrase) (dotted : Bool) (rest : SeriesPhrase)

/-- Chains with commas between them, with or without a semicolon at the end. -/
inductive GroupPhrase where
  | last (series : SeriesPhrase) (closed : Bool)
  | more (series : SeriesPhrase) (rest : GroupPhrase)

end

/-! ## What a phrase is written with -/

/-- A symbol that may be left out. -/
def Symbol.optional (s : Symbol) (written : Bool) : List Symbol := if written then [s] else []

mutual

/-- The symbols of an element. -/
def ElementPhrase.yield : ElementPhrase → List Symbol
  | .value t => [.value t]
  | .group g => .colon :: g.yield

/-- The symbols of a chain. -/
def SeriesPhrase.yield : SeriesPhrase → List Symbol
  | .one e => e.yield
  | .more e dotted s => e.yield ++ (Symbol.dot.optional dotted ++ s.yield)

/-- The symbols of a group, its semicolon included. -/
def GroupPhrase.yield : GroupPhrase → List Symbol
  | .last s closed => s.yield ++ Symbol.semicolon.optional closed
  | .more s g => s.yield ++ .comma :: g.yield

end

mutual

/-- Whether an element can stand in front of some symbols. -/
def ElementPhrase.FollowedBy : ElementPhrase → List Symbol → Prop
  | .value _, _ => True
  | .group g, r => g.FollowedBy r

/-- Whether a chain can stand in front of some symbols. -/
def SeriesPhrase.FollowedBy : SeriesPhrase → List Symbol → Prop
  | .one e, r => e.FollowedBy r
  | .more e dotted s, r =>
    e.FollowedBy (Symbol.dot.optional dotted ++ s.yield ++ r) ∧ s.FollowedBy r

/-- Whether a group can stand in front of some symbols: a group without a
semicolon is closed by the end of the text, so that nothing follows it. -/
def GroupPhrase.FollowedBy : GroupPhrase → List Symbol → Prop
  | .last s closed, r =>
    s.FollowedBy (Symbol.semicolon.optional closed ++ r) ∧ (closed = false → r = [])
  | .more s g, r => s.FollowedBy (.comma :: g.yield ++ r) ∧ g.FollowedBy r

end

/-- A group derives a sequence of symbols when it is written with exactly these
and nothing follows. The whole topology is one such group. -/
def GroupPhrase.Derives (g : GroupPhrase) (ss : List Symbol) : Prop :=
  g.yield = ss ∧ g.FollowedBy []

/-! ## What a phrase stands for -/

/-- Whether the text of a value is the number of a resistance. -/
def IsResistance (text : String) : Prop :=
  ∃ r, readValue? text = some r ∧ r.isFinite = true ∧ ¬r < 0

/-- The resistance that the text of a value stands for. -/
def resistanceOf (text : String) : Float := (readValue? text).getD 0

mutual

/-- The element that a phrase stands for. -/
def ElementPhrase.element : ElementPhrase → Element Float
  | .value t => .ofResistance (resistanceOf t)
  | .group g => .parallel g.branches

/-- The chain that a phrase stands for. -/
def SeriesPhrase.chain : SeriesPhrase → Chain Float
  | .one e => .last e.element
  | .more e _ s => .link e.element s.chain

/-- The branches of the group that a phrase stands for. -/
def GroupPhrase.branches : GroupPhrase → List (Chain Float)
  | .last s _ => [s.chain]
  | .more s g => s.chain :: g.branches

end

/-- The network of a topology: one group and nothing after it. -/
def GroupPhrase.network (g : GroupPhrase) : Chain Float := .last (.parallel g.branches)

/-! ## Unambiguity -/

/-- Symbols that end a chain: none at all, or a separator of branches first. -/
def Stops : List Symbol → Prop
  | [] => True
  | s :: _ => s = .comma ∨ s = .semicolon

/-- Symbols that start an element. -/
def Starts : List Symbol → Prop
  | .value _ :: _ => True
  | .colon :: _ => True
  | _ => False

theorem ElementPhrase.starts_yield (e : ElementPhrase) (r : List Symbol) :
    Starts (e.yield ++ r) := by
  cases e <;> simp [yield, Starts]

theorem SeriesPhrase.starts_yield (s : SeriesPhrase) (r : List Symbol) :
    Starts (s.yield ++ r) := by
  cases s <;> simp only [yield, List.append_assoc, ElementPhrase.starts_yield]

theorem Starts.not_stops {r : List Symbol} (h : Starts r) : ¬Stops r := by
  intro h'
  match r with
  | [] => exact h
  | .value _ :: _ => simp [Stops] at h'
  | .colon :: _ => simp [Stops] at h'
  | .dot :: _ => exact h
  | .comma :: _ => exact h
  | .semicolon :: _ => exact h
  | .finish :: _ => exact h

/-- An element cannot be mistaken for an end of the chain, dotted or not. -/
theorem not_stops_optional_dot {r : List Symbol} (dotted : Bool) (h : Starts r) :
    ¬Stops (Symbol.dot.optional dotted ++ r) := by
  cases dotted
  · exact h.not_stops
  · simp [Symbol.optional, Stops]

/-- The start of an element shows whether a dot stands before it. -/
theorem optional_dot_inj {dotted dotted' : Bool} {r r' : List Symbol} (h : Starts r)
    (h' : Starts r') (heq : Symbol.dot.optional dotted ++ r = Symbol.dot.optional dotted' ++ r') :
    dotted = dotted' ∧ r = r' := by
  cases dotted <;> cases dotted' <;> simp only [Symbol.optional] at heq
  · exact ⟨rfl, heq⟩
  · simp only [Bool.false_eq_true, if_false, List.nil_append, if_true] at heq
    subst heq
    exact absurd h (by simp [Starts])
  · simp only [Bool.false_eq_true, if_false, List.nil_append, if_true] at heq
    subst heq
    exact absurd h' (by simp [Starts])
  · exact ⟨rfl, by simpa using heq⟩

theorem stops_comma (r : List Symbol) : Stops (.comma :: r) := Or.inl rfl

/-- What stands after the last chain of a group ends that chain. -/
theorem stops_end {closed : Bool} {r : List Symbol} (h : closed = false → r = []) :
    Stops (Symbol.semicolon.optional closed ++ r) := by
  cases closed
  · rw [h rfl]
    trivial
  · exact .inr rfl

mutual

/-- The symbols of an element and what follows it determine both. -/
theorem ElementPhrase.yield_append_inj : (e e' : ElementPhrase) → {r r' : List Symbol} →
    e.FollowedBy r → e'.FollowedBy r' → e.yield ++ r = e'.yield ++ r' → e = e' ∧ r = r'
  | .value t, .value t', r, r', _, _, heq => by
    simp only [ElementPhrase.yield, List.cons_append, List.nil_append, List.cons.injEq,
      Symbol.value.injEq] at heq
    exact ⟨congrArg _ heq.1, heq.2⟩
  | .value t, .group g, r, r', _, _, heq => by simp [ElementPhrase.yield] at heq
  | .group g, .value t, r, r', _, _, heq => by simp [ElementPhrase.yield] at heq
  | .group g, .group g', r, r', h, h', heq => by
    simp only [ElementPhrase.yield, List.cons_append, List.cons.injEq, true_and] at heq
    obtain ⟨rfl, rfl⟩ := g.yield_append_inj g' h h' heq
    exact ⟨rfl, rfl⟩

/-- The symbols of a chain and what ends it determine both. -/
theorem SeriesPhrase.yield_append_inj : (s s' : SeriesPhrase) → {r r' : List Symbol} →
    Stops r → Stops r' → s.FollowedBy r → s'.FollowedBy r' → s.yield ++ r = s'.yield ++ r' →
    s = s' ∧ r = r'
  | .one e, .one e', r, r', _, _, h, h', heq => by
    obtain ⟨rfl, rfl⟩ := e.yield_append_inj e' h h' heq
    exact ⟨rfl, rfl⟩
  | .one e, .more e' dotted s', r, r', hr, _, h, h', heq => by
    simp only [SeriesPhrase.yield, List.append_assoc] at heq
    have h'' := h'.1
    rw [List.append_assoc] at h''
    -- one chain ends where the other one goes on with an element
    obtain ⟨-, rfl⟩ := e.yield_append_inj e' h h'' heq
    exact absurd hr (not_stops_optional_dot dotted (s'.starts_yield r'))
  | .more e dotted s, .one e', r, r', _, hr', h, h', heq => by
    simp only [SeriesPhrase.yield, List.append_assoc] at heq
    have h'' := h.1
    rw [List.append_assoc] at h''
    obtain ⟨-, rfl⟩ := e.yield_append_inj e' h'' h' heq
    exact absurd hr' (not_stops_optional_dot dotted (s.starts_yield r))
  | .more e dotted s, .more e' dotted' s', r, r', hr, hr', h, h', heq => by
    simp only [SeriesPhrase.yield, List.append_assoc] at heq
    obtain ⟨he, hs⟩ := h
    obtain ⟨he', hs'⟩ := h'
    rw [List.append_assoc] at he he'
    obtain ⟨rfl, hrest⟩ := e.yield_append_inj e' he he' heq
    obtain ⟨rfl, hseries⟩ := optional_dot_inj (s.starts_yield r) (s'.starts_yield r') hrest
    obtain ⟨rfl, rfl⟩ := s.yield_append_inj s' hr hr' hs hs' hseries
    exact ⟨rfl, rfl⟩

/-- The symbols of a group and what follows it determine both. -/
theorem GroupPhrase.yield_append_inj : (g g' : GroupPhrase) → {r r' : List Symbol} →
    g.FollowedBy r → g'.FollowedBy r' → g.yield ++ r = g'.yield ++ r' → g = g' ∧ r = r'
  | .last s closed, .last s' closed', r, r', h, h', heq => by
    simp only [GroupPhrase.yield, List.append_assoc] at heq
    obtain ⟨rfl, hrest⟩ := s.yield_append_inj s' (stops_end h.2) (stops_end h'.2) h.1 h'.1 heq
    cases closed <;> cases closed'
    · exact ⟨rfl, hrest⟩
    · simp [h.2 rfl, Symbol.optional] at hrest
    · simp [h'.2 rfl, Symbol.optional] at hrest
    · exact ⟨rfl, by simpa [Symbol.optional] using hrest⟩
  | .last s closed, .more s' g', r, r', h, h', heq => by
    simp only [GroupPhrase.yield, List.append_assoc] at heq
    obtain ⟨-, hrest⟩ := s.yield_append_inj s' (stops_end h.2) (stops_comma _) h.1 h'.1 heq
    cases closed
    · simp [h.2 rfl, Symbol.optional] at hrest
    · simp [Symbol.optional] at hrest
  | .more s g, .last s' closed, r, r', h, h', heq => by
    simp only [GroupPhrase.yield, List.append_assoc] at heq
    obtain ⟨-, hrest⟩ := s.yield_append_inj s' (stops_comma _) (stops_end h'.2) h.1 h'.1 heq
    cases closed
    · simp [h'.2 rfl, Symbol.optional] at hrest
    · simp [Symbol.optional] at hrest
  | .more s g, .more s' g', r, r', h, h', heq => by
    simp only [GroupPhrase.yield, List.append_assoc] at heq
    obtain ⟨rfl, hrest⟩ := s.yield_append_inj s' (stops_comma _) (stops_comma _) h.1 h'.1 heq
    simp only [List.cons.injEq, true_and] at hrest
    obtain ⟨rfl, rfl⟩ := g.yield_append_inj g' h.2 h'.2 hrest
    exact ⟨rfl, rfl⟩

end

/-- **The grammar is unambiguous.** -/
theorem GroupPhrase.Derives.unique {g g' : GroupPhrase} {ss : List Symbol} (h : g.Derives ss)
    (h' : g'.Derives ss) : g = g' := by
  have heq : g.yield ++ [] = g'.yield ++ [] := by rw [h.1, h'.1]
  exact (g.yield_append_inj g' h.2 h'.2 heq).1

end SeriesParallel
