import SeriesParallel.Proofs.Topology.Grammar

/-!
# Topology — what a draft accepts

Positions matter for failures only. `Draft.read?` follows a draft over symbols
alone and answers with the network that reading ends in, if it does. A symbol
is taken in or not; each kind has one law that says when, and what the draft is
afterwards. The end of the text acts on a draft as a `;` does, once for every
group that is open.
-/

namespace SeriesParallel

/-! ## One symbol -/

/-- What a draft becomes when it takes in a symbol. -/
def Draft.next? (d : Draft) (s : Symbol) : Option Progress := (d.step ⟨s, 0⟩).toOption

namespace OpenGroup

/-- The chain being read, if it has an element. -/
def chain? (g : OpenGroup) : Option (Chain Float) := Chain.ofElements? g.series.reverse

theorem toOption_endSeries (g : OpenGroup) (position : Nat) :
    (g.endSeries position).toOption = g.chain?.map fun c => ⟨c :: g.branches, []⟩ := by
  simp only [endSeries, chain?]
  split <;> simp_all [Except.toOption]

end OpenGroup

/-- Of two steps, both succeed when they do together. -/
theorem bind_eq_ok {ε α β : Type} {x : Except ε α} {f : α → Except ε β} {b : β}
    (h : (x >>= f) = .ok b) : ∃ a, x = .ok a ∧ f a = .ok b := by
  cases x with
  | error e => cases h
  | ok a => exact ⟨a, rfl, h⟩

theorem toOption_bind {ε α β : Type} (x : Except ε α) (f : α → Except ε β) :
    (x >>= f).toOption = x.toOption.bind fun a => (f a).toOption := by
  cases x <;> rfl

theorem toOption_map {ε α β : Type} (x : Except ε α) (f : α → β) :
    (x.map f).toOption = x.toOption.map f := by
  cases x <;> rfl

theorem toOption_readResistor (text : String) (position : Nat) (e : Element Float) :
    (readResistor text position).toOption = some e ↔
      IsResistance text ∧ e = .ofResistance (resistanceOf text) := by
  simp only [readResistor, IsResistance, resistanceOf]
  cases h : readValue? text with
  | none => simp [Except.toOption]
  | some r =>
    by_cases hr : r.isFinite = true ∧ ¬r < 0
    · simp [hr, Except.toOption, eq_comm (a := e)]
    · have refused : (!r.isFinite || decide (r < 0)) = true := by
        by_cases hf : r.isFinite = true <;> simp_all
      simp only [refused, if_true, Except.toOption, reduceCtorEq, false_iff, not_and]
      intro h'
      obtain ⟨r', hr', haccepted⟩ := h'
      cases hr'
      exact absurd haccepted hr

namespace Draft

/-- What a separator makes of a draft, given the chain that it ends. -/
def separated (d : Draft) (c : Chain Float) : Symbol → Option Progress
  | .comma => some (.reading ⟨⟨c :: d.current.branches, []⟩, d.enclosing, false⟩)
  | .semicolon => some (leave (.parallel (c :: d.current.branches).reverse) d.enclosing)
  | _ => none

theorem toOption_separate (d : Draft) (t : Token) :
    (d.separate t).toOption = d.current.chain?.bind fun c => d.separated c t.symbol := by
  obtain ⟨s, position⟩ := t
  simp only [separate, toOption_bind, OpenGroup.toOption_endSeries]
  cases d.current.chain? with
  | none => rfl
  | some c => cases s <;> rfl

/-- The position of a token does not matter to what is read. -/
theorem toOption_step (d : Draft) (t : Token) : (d.step t).toOption = d.next? t.symbol := by
  obtain ⟨s, position⟩ := t
  have value (text : String) (p q : Nat) :
      (readResistor text p).toOption = (readResistor text q).toOption :=
    Option.ext fun e => by rw [toOption_readResistor, toOption_readResistor]
  have separator (p q : Nat) : (d.separate ⟨s, p⟩).toOption = (d.separate ⟨s, q⟩).toOption := by
    rw [toOption_separate, toOption_separate]
  cases s with
  | value text => simp only [next?, step, toOption_map, value text position 0]
  | colon => rfl
  | dot =>
    simp only [next?, step, if_true]
    split
    · rfl
    · split <;> rfl
  | comma | semicolon | finish =>
    simp only [next?, step, reduceCtorEq, if_false]
    split
    · rfl
    · exact separator position 0

theorem next?_value {d : Draft} {text : String} {p : Progress} :
    d.next? (.value text) = some p ↔
      IsResistance text ∧ p = .reading (d.add (.ofResistance (resistanceOf text))) := by
  simp only [next?, step, toOption_map, Option.map_eq_some_iff, toOption_readResistor]
  constructor
  · intro h
    obtain ⟨e, ⟨hr, rfl⟩, rfl⟩ := h
    exact ⟨hr, rfl⟩
  · intro h
    exact ⟨_, ⟨h.1, rfl⟩, h.2.symm⟩

@[simp] theorem next?_colon (d : Draft) : d.next? .colon = some (.reading d.enter) := rfl

theorem next?_dot {d : Draft} {p : Progress} :
    d.next? .dot = some p ↔
      d.dotted = false ∧ d.current.series ≠ [] ∧ p = .reading { d with dotted := true } := by
  simp only [next?, step]
  by_cases hd : d.dotted = true
  · simp [hd, Except.toOption]
  · by_cases hs : d.current.series = [] <;> simp [hd, hs, Except.toOption, eq_comm (a := p)]

/-- **A separator needs a chain to end**, and no dot before it. -/
theorem next?_separator {d : Draft} {s : Symbol} {p : Progress}
    (hs : s = .comma ∨ s = .semicolon) :
    d.next? s = some p ↔
      d.dotted = false ∧ ∃ c, d.current.chain? = some c ∧ d.separated c s = some p := by
  have step_eq : d.next? s = if d.dotted then none else (d.separate ⟨s, 0⟩).toOption := by
    rcases hs with rfl | rfl <;> simp only [next?, step, reduceCtorEq, if_false] <;>
      split <;> rfl
  rw [step_eq, toOption_separate]
  by_cases hd : d.dotted = true
  · simp [hd]
  · simp [hd, Option.bind_eq_some_iff]

theorem next?_finish (d : Draft) : d.next? .finish = none := by
  have step_eq : d.next? .finish = if d.dotted then none else (d.separate ⟨.finish, 0⟩).toOption := by
    simp only [next?, step, reduceCtorEq, if_false]
    split <;> rfl
  rw [step_eq, toOption_separate]
  cases d.current.chain? <;> simp [separated]

/-! ## All symbols -/

/-- The network that a draft ends in when it takes in some symbols and then
the end of the text. -/
def read? (d : Draft) : List Symbol → Option (Element Float)
  | [] => (d.finish 0).toOption
  | s :: ss =>
    match d.next? s with
    | none => none
    | some (.reading d') => d'.read? ss
    | some (.closed root) => if ss = [] then some root else none

end Draft

/-- What is read after a token has been taken in. -/
def Progress.read? : Progress → List Symbol → Option (Element Float)
  | .reading d, ss => d.read? ss
  | .closed root, ss => if ss = [] then some root else none

namespace Draft

theorem read?_cons {d : Draft} {s : Symbol} {ss : List Symbol} {p : Progress}
    (h : d.next? s = some p) : d.read? (s :: ss) = p.read? ss := by
  rw [read?, h]
  cases p <;> rfl

/-- What is read to the end is taken in, symbol after symbol. -/
theorem exists_next?_of_read? {d : Draft} {s : Symbol} {ss : List Symbol} {root : Element Float}
    (h : d.read? (s :: ss) = some root) : ∃ p, d.next? s = some p ∧ p.read? ss = some root := by
  cases hnext : d.next? s with
  | none => simp [read?, hnext] at h
  | some p => exact ⟨p, rfl, (read?_cons hnext).symm.trans h⟩

/-- Closing the open groups around an element is reading the end of the text
with that element in place. -/
theorem toOption_closeAll (position : Nat) (e : Element Float) (gs : List OpenGroup) :
    (closeAll position e gs).toOption = (leave e gs).read? [] := by
  -- positions are only there for the errors
  have same (p q : Nat) : (closeAll p e gs).toOption = (closeAll q e gs).toOption := by
    induction gs generalizing e with
    | nil => rfl
    | cons g gs ih =>
      simp only [closeAll, toOption_bind, OpenGroup.toOption_endSeries, ih]
  cases gs with
  | nil => rfl
  | cons g gs => exact same position 0

theorem toOption_finish (d : Draft) (position : Nat) :
    (d.finish position).toOption = d.read? [] := by
  simp only [read?, finish]
  split
  · rfl
  · simp only [toOption_bind, OpenGroup.toOption_endSeries, toOption_closeAll]

/-- **The end of the text closes the innermost group**, then the groups around
it. -/
theorem read?_nil {d : Draft} {root : Element Float} :
    d.read? [] = some root ↔
      d.dotted = false ∧ ∃ c, d.current.chain? = some c ∧
        (leave (.parallel (c :: d.current.branches).reverse) d.enclosing).read? []
          = some root := by
  simp only [read?, finish]
  by_cases hd : d.dotted = true
  · simp [hd, Except.toOption]
  · simp only [hd, Bool.false_eq_true, if_false, toOption_bind, OpenGroup.toOption_endSeries,
      toOption_closeAll, Option.bind_eq_some_iff, Option.map_eq_some_iff, OpenGroup.close, true_and]
    constructor
    · intro h
      obtain ⟨g, ⟨c, hc, rfl⟩, h⟩ := h
      exact ⟨c, hc, h⟩
    · intro h
      obtain ⟨c, hc, h⟩ := h
      exact ⟨_, ⟨c, hc, rfl⟩, h⟩

end Draft

/-! ## Parsing without positions -/

/-- The network of a run that took in every token. -/
def wholeRun : Except (Failure Float) (Element Float) × List Token → Option (Element Float)
  | (.ok root, []) => some root
  | _ => none

theorem wholeRun_run (finish : Nat) (d : Draft) (ts : List Token) :
    wholeRun (TokenStream.run finish d ts) = d.read? (ts.map Token.symbol) := by
  induction ts generalizing d with
  | nil =>
    rw [List.map_nil, ← d.toOption_finish finish, TokenStream.run]
    cases d.finish finish <;> rfl
  | cons t ts ih =>
    rw [List.map_cons, Draft.read?, ← Draft.toOption_step, TokenStream.run]
    cases d.step t with
    | error e => rfl
    | ok p =>
      cases p with
      | reading d' => exact ih d'
      | closed root => cases ts <;> simp [wholeRun, Except.toOption]

/-- **Parsing is reading the symbols.** -/
theorem parse_eq_ok {s : TokenStream} {c : Chain Float} :
    s.parse.1 = .ok c ↔
      ∃ root, Draft.start.read? (s.tokens.map Token.symbol) = some root ∧ c = .last root := by
  rw [← wholeRun_run s.finish]
  simp only [TokenStream.parse]
  cases TokenStream.run s.finish .start s.tokens with
  | mk result rest =>
    cases result with
    | error e => simp [wholeRun]
    | ok root => cases rest <;> simp [wholeRun, eq_comm]

end SeriesParallel
