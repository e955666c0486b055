import SeriesParallel.Proofs.Topology.Acceptance
import SeriesParallel.Proofs.Topology.Lexing

/-!
# Topology — the token that is refused

A topology that is not parsed is refused at one token. The tokens before it are
the start of some topology: whatever has been read, the end of the text closes
every group that is open, after one more value where an element is missing. No
topology starts with these tokens and the one that is refused.
-/

namespace SeriesParallel

/-! ## Taking in symbols -/

namespace Progress

/-- What some progress becomes when it takes in all of some symbols. -/
def after? : Progress → List Symbol → Option Progress
  | p, [] => some p
  | .reading d, s :: ss => (d.next? s).bind fun p => p.after? ss
  | .closed _, _ :: _ => none

/-- No symbol is taken in after the implicit group has been closed, and none
that a draft refuses. -/
theorem after?_cons {p q : Progress} {s : Symbol} {ss : List Symbol} :
    p.after? (s :: ss) = some q ↔
      ∃ d p', p = .reading d ∧ d.next? s = some p' ∧ p'.after? ss = some q := by
  cases p with
  | closed root => simp [after?]
  | reading d => simp [after?, Option.bind_eq_some_iff]

theorem after?_append {p q : Progress} {ss ss' : List Symbol} :
    p.after? (ss ++ ss') = some q ↔ ∃ p', p.after? ss = some p' ∧ p'.after? ss' = some q := by
  induction ss generalizing p with
  | nil => simp [after?]
  | cons s ss ih =>
    rw [List.cons_append, after?_cons]
    constructor
    · intro h
      obtain ⟨d, p', rfl, hnext, h⟩ := h
      obtain ⟨p'', h, h'⟩ := ih.mp h
      exact ⟨p'', after?_cons.mpr ⟨d, p', rfl, hnext, h⟩, h'⟩
    · intro h
      obtain ⟨p'', h, h'⟩ := h
      obtain ⟨d, p', rfl, hnext, h⟩ := after?_cons.mp h
      exact ⟨d, p', rfl, hnext, ih.mpr ⟨p'', h, h'⟩⟩

/-- Reading goes on from the symbols that have been taken in. -/
theorem read?_of_after? {p q : Progress} {ss : List Symbol} (h : p.after? ss = some q)
    (rest : List Symbol) : p.read? (ss ++ rest) = q.read? rest := by
  induction ss generalizing p with
  | nil =>
    cases h
    rfl
  | cons s ss ih =>
    obtain ⟨d, p', rfl, hnext, h⟩ := after?_cons.mp h
    exact (Draft.read?_cons hnext).trans (ih h)

/-- Some progress refuses a symbol when nothing that starts with this symbol is
read, and, if it is the end of the text, the text is not read as it stands. -/
def Refuses (p : Progress) (s : Symbol) : Prop :=
  (∀ rest, p.read? (s :: rest) = none) ∧ (s = .finish → p.read? [] = none)

end Progress

theorem Draft.read?_refused {d : Draft} {s : Symbol} (h : d.next? s = none)
    (rest : List Symbol) : d.read? (s :: rest) = none := by
  rw [read?, h]

/-- **What starts with a refused symbol is not parsed.** -/
theorem Progress.Refuses.not_parsed {p : Progress} {before : List Symbol} {s : Symbol}
    {stream : TokenStream} (h : p.Refuses s)
    (hbefore : (Progress.reading .start).after? before = some p)
    (hstream : before ++ [s] <+: stream.sequence.map Token.symbol) (c : Chain Float) :
    stream.parse.1 ≠ .ok c := by
  intro hparse
  obtain ⟨root, hroot, -⟩ := parse_eq_ok.mp hparse
  rw [TokenStream.sequence, List.map_append, List.map_singleton, List.prefix_concat_iff] at hstream
  rcases hstream with hwhole | ⟨rest, hrest⟩
  · -- the refused symbol is the end of the text
    obtain ⟨hsymbols, hs⟩ := List.append_inj' hwhole rfl
    have unread : (Progress.reading .start).read? (before ++ []) = none := by
      rw [Progress.read?_of_after? hbefore]
      exact h.2 (List.cons.inj hs).1
    rw [List.append_nil, hsymbols] at unread
    exact absurd (hroot.symm.trans unread) (Option.some_ne_none root)
  · have unread : (Progress.reading .start).read? (before ++ s :: rest) = none := by
      rw [Progress.read?_of_after? hbefore]
      exact h.1 rest
    rw [List.append_assoc] at hrest
    rw [← List.singleton_append, hrest] at unread
    exact absurd (hroot.symm.trans unread) (Option.some_ne_none root)

/-! ## Failures -/

/-- A draft takes in the tokens `before`, and refuses the next one with a
failure at its position. -/
structure Draft.RefusesAfter (d : Draft) (before : List Token) (t : Token) (e : Failure Float) :
    Prop where
  refused : ∃ p, (Progress.reading d).after? (before.map Token.symbol) = some p ∧
    p.Refuses t.symbol
  failure : ∃ cause, e = .malformed t.position cause

/-- Of two steps, one fails when both together do. -/
theorem bind_eq_error {ε α β : Type} {x : Except ε α} {f : α → Except ε β} {e : ε}
    (h : (x >>= f) = .error e) : x = .error e ∨ ∃ a, x = .ok a ∧ f a = .error e := by
  cases x with
  | error e' =>
    cases h
    exact .inl rfl
  | ok a => exact .inr ⟨a, rfl, h⟩

namespace Draft

variable {d : Draft} {t : Token} {e : Failure Float} {position : Nat}

/-- A failure to end a chain is at the token that ends it. -/
theorem endSeries_eq_error {g : OpenGroup} (h : g.endSeries position = .error e) :
    e = .malformed position .missingElement := by
  unfold OpenGroup.endSeries at h
  split at h <;> cases h
  rfl

theorem separate_eq_error (h : d.separate t = .error e) :
    ∃ cause, e = .malformed t.position cause := by
  obtain hg | ⟨g, -, h⟩ := bind_eq_error h
  · exact ⟨_, endSeries_eq_error hg⟩
  · split at h <;> cases h
    exact ⟨_, rfl⟩

theorem readResistor_eq_error {text : String} (h : readResistor text position = .error e) :
    ∃ cause, e = .malformed position cause := by
  unfold readResistor at h
  split at h
  · cases h
    exact ⟨_, rfl⟩
  · split at h <;> cases h
    exact ⟨_, rfl⟩

/-- **A token is refused at its position.** -/
theorem step_eq_error (h : d.step t = .error e) : ∃ cause, e = .malformed t.position cause := by
  unfold step at h
  split at h
  next text _ =>
    cases hr : readResistor text t.position with
    | error e' =>
      rw [hr] at h
      cases h
      exact readResistor_eq_error hr
    | ok r =>
      rw [hr] at h
      cases h
  · cases h
  · split at h
    · cases h
      exact ⟨_, rfl⟩
    · split at h
      · split at h <;> cases h
        exact ⟨_, rfl⟩
      · exact separate_eq_error h

theorem closeAll_eq_error {root : Element Float} {gs : List OpenGroup}
    (h : closeAll position root gs = .error e) : ∃ cause, e = .malformed position cause := by
  induction gs generalizing root with
  | nil => cases h
  | cons g gs ih =>
    obtain hg | ⟨g', -, h⟩ := bind_eq_error h
    · exact ⟨_, endSeries_eq_error hg⟩
    · exact ih h

/-- **The end of the text is refused at its position.** -/
theorem finish_eq_error (h : d.finish position = .error e) :
    ∃ cause, e = .malformed position cause := by
  unfold finish at h
  split at h
  · cases h
    exact ⟨_, rfl⟩
  · obtain hg | ⟨g, -, h⟩ := bind_eq_error h
    · exact ⟨_, endSeries_eq_error hg⟩
    · exact closeAll_eq_error h

/-- The first token of those that are left is refused. -/
theorem RefusesAfter.first (h : (Progress.reading d).Refuses t.symbol)
    (hfailure : ∃ cause, e = .malformed t.position cause) : d.RefusesAfter [] t e :=
  ⟨⟨_, rfl, h⟩, hfailure⟩

/-- A token that a draft takes in comes before the one it refuses later. -/
theorem RefusesAfter.cons {d' : Draft} {u : Token} {before : List Token}
    (hu : d.next? u.symbol = some (.reading d')) (h : d'.RefusesAfter before t e) :
    d.RefusesAfter (u :: before) t e := by
  obtain ⟨⟨p, hafter, hp⟩, hfailure⟩ := h
  exact ⟨⟨p, Progress.after?_cons.mpr ⟨d, _, rfl, hu, hafter⟩, hp⟩, hfailure⟩

end Draft

namespace TokenStream

/-- **A run that fails refuses a token**, or the end of the text. -/
theorem run_eq_error {finish : Nat} {d : Draft} {ts rest : List Token} {e : Failure Float}
    (hts : ∀ t ∈ ts, t.symbol ≠ .finish) (h : run finish d ts = (.error e, rest)) :
    ∃ before t after, (TokenStream.mk ts finish).sequence = before ++ t :: after ∧
      d.RefusesAfter before t e := by
  induction ts generalizing d with
  | nil =>
    have hfinish : d.finish finish = .error e := congrArg Prod.fst h
    refine ⟨[], ⟨.finish, finish⟩, [], rfl, .first ⟨?_, fun _ => ?_⟩
      (Draft.finish_eq_error hfinish)⟩
    · exact Draft.read?_refused d.next?_finish
    · show d.read? [] = none
      rw [← d.toOption_finish finish, hfinish]
      rfl
  | cons t ts ih =>
    rw [run] at h
    have taken : (d.step t).toOption = d.next? t.symbol := d.toOption_step t
    cases hstep : d.step t with
    | error e' =>
      rw [hstep] at h taken
      cases h
      refine ⟨[], t, _, rfl, .first ⟨Draft.read?_refused taken.symm, fun hs => ?_⟩
        (Draft.step_eq_error hstep)⟩
      exact absurd hs (hts t List.mem_cons_self)
    | ok p =>
      rw [hstep] at h taken
      cases p with
      | closed root => cases h
      | reading d' =>
        obtain ⟨before, u, after, hsequence, hrefuses⟩ :=
          ih (fun u hu => hts u (List.mem_cons_of_mem _ hu)) h
        exact ⟨t :: before, u, after, congrArg (t :: ·) hsequence, hrefuses.cons taken.symm⟩

/-- A run that ends before its tokens do has closed the implicit group. -/
theorem run_eq_ok {finish : Nat} {d : Draft} {ts rest : List Token} {t : Token}
    {root : Element Float} (h : run finish d ts = (.ok root, t :: rest)) :
    ∃ before, ts = before ++ t :: rest ∧
      (Progress.reading d).after? (before.map Token.symbol) = some (.closed root) := by
  induction ts generalizing d with
  | nil => exact absurd (congrArg Prod.snd h) (List.cons_ne_nil _ _).symm
  | cons u ts ih =>
    rw [run] at h
    have taken : (d.step u).toOption = d.next? u.symbol := d.toOption_step u
    cases hstep : d.step u with
    | error e =>
      rw [hstep] at h
      cases h
    | ok p =>
      rw [hstep] at h taken
      cases p with
      | closed root' =>
        cases h
        exact ⟨[u], rfl, Progress.after?_cons.mpr ⟨d, _, rfl, taken.symm, rfl⟩⟩
      | reading d' =>
        obtain ⟨before, rfl, hafter⟩ := ih h
        exact ⟨u :: before, rfl, Progress.after?_cons.mpr ⟨d, _, rfl, taken.symm, hafter⟩⟩

/-- A run goes on until the implicit group is closed, and no further. -/
theorem run_of_after? {finish : Nat} {d : Draft} {before : List Token} {root : Element Float}
    (h : (Progress.reading d).after? (before.map Token.symbol) = some (.closed root))
    (rest : List Token) : run finish d (before ++ rest) = (.ok root, rest) := by
  induction before generalizing d with
  | nil => cases h
  | cons t before ih =>
    obtain ⟨d', p, hd, hnext, hafter⟩ := Progress.after?_cons.mp h
    cases hd
    rw [← d.toOption_step t] at hnext
    rw [List.cons_append, run]
    cases hstep : d.step t with
    | error e =>
      rw [hstep] at hnext
      cases hnext
    | ok q =>
      rw [hstep] at hnext
      cases hnext
      cases p with
      | reading d' => exact ih hafter
      | closed root' =>
        cases before with
        | nil =>
          cases hafter
          rfl
        | cons u before => cases hafter

/-- **What follows the implicit group is refused**, at its first token. -/
theorem parse_eq_trailing {s : TokenStream} {before rest : List Token} {t : Token}
    {root : Element Float} (htokens : s.tokens = before ++ t :: rest)
    (hafter : (Progress.reading .start).after? (before.map Token.symbol) = some (.closed root)) :
    s.parse.1 = .error (.malformed t.position (.trailing t.symbol.text)) := by
  rw [parse, htokens, run_of_after? hafter]

/-- **A stream that is not parsed has a token that is refused.** -/
theorem parse_eq_error {s : TokenStream} {e : Failure Float}
    (hs : ∀ t ∈ s.tokens, t.symbol ≠ .finish) (h : s.parse.1 = .error e) :
    ∃ before t after, s.sequence = before ++ t :: after ∧
      Draft.start.RefusesAfter before t e := by
  simp only [parse] at h
  cases hrun : run s.finish .start s.tokens with
  | mk result rest =>
    rw [hrun] at h
    cases result with
    | error e' =>
      cases h
      exact run_eq_error hs hrun
    | ok root =>
      cases rest with
      | nil => cases h
      | cons t rest =>
        -- the implicit group is closed, and the text goes on
        cases h
        obtain ⟨before, htokens, hafter⟩ := run_eq_ok hrun
        have ht : t ∈ s.tokens := by simp [htokens]
        refine ⟨before, t, rest ++ [⟨.finish, s.finish⟩], by simp [sequence, htokens], ⟨_, hafter,
          fun _ => rfl, fun hfinish => absurd hfinish (hs t ht)⟩, _, rfl⟩

end TokenStream

/-! ## Completion -/

theorem isResistance_one : IsResistance "1" :=
  ⟨1, by decide +kernel, by decide +kernel, by decide +kernel⟩

theorem isWord_one : IsWord ['1'] :=
  ⟨List.forall_mem_singleton.mpr (by decide), '1', rfl, by decide⟩

/-- A group that an element has just been added to can be closed. -/
theorem OpenGroup.exists_chain {g : OpenGroup} (h : g.series ≠ []) : ∃ c, g.chain? = some c := by
  cases hs : g.series.reverse with
  | nil => exact absurd (List.reverse_eq_nil_iff.mp hs) h
  | cons e es => exact ⟨_, by rw [chain?, hs]; rfl⟩

/-- **The end of the text closes every group that is open.** -/
theorem Draft.exists_read?_leave (e : Element Float) (gs : List OpenGroup) :
    ∃ root, (leave e gs).read? [] = some root := by
  induction gs generalizing e with
  | nil => exact ⟨e, rfl⟩
  | cons g gs ih =>
    obtain ⟨c, hc⟩ := OpenGroup.exists_chain (g := g.add e) (List.cons_ne_nil e g.series)
    obtain ⟨root, hroot⟩ := ih (.parallel (c :: g.branches).reverse)
    exact ⟨root, Draft.read?_nil.mpr ⟨rfl, c, hc, hroot⟩⟩

/-- Whether an element can end with a symbol: a value does, and a group ends with
its semicolon. -/
def Symbol.endsElement : Symbol → Bool
  | value _ => true
  | semicolon => true
  | _ => false

/-- A value ends an element. -/
theorem Symbol.isValue_eq_false {s : Symbol} (h : s.endsElement = false) : s.isValue = false := by
  cases s with
  | value t => cases h
  | dot | colon | comma | semicolon | finish => rfl

namespace Draft

/-- A draft in which an element is missing: after a dot, or at the start of a
chain. -/
def Lacks (d : Draft) : Prop := d.dotted ∨ d.current.series = []

/-- A draft in which no element is missing is completed by the end of the text. -/
theorem exists_read?_nil {d : Draft} (h : ¬d.Lacks) : ∃ root, d.read? [] = some root := by
  obtain ⟨hdotted, hseries⟩ := not_or.mp h
  obtain ⟨c, hc⟩ := OpenGroup.exists_chain hseries
  obtain ⟨root, hroot⟩ := exists_read?_leave (.parallel (c :: d.current.branches).reverse)
    d.enclosing
  exact ⟨root, read?_nil.mpr ⟨Bool.eq_false_iff.mpr hdotted, c, hc, hroot⟩⟩

/-- Nothing is missing after an element. -/
theorem not_lacks_add (d : Draft) (e : Element Float) : ¬(d.add e).Lacks := by
  simp [Lacks, add, OpenGroup.add]

/-- Any draft is completed by a value. -/
theorem exists_read?_value (d : Draft) : ∃ root, d.read? [.value "1"] = some root := by
  obtain ⟨root, hroot⟩ := exists_read?_nil
    (d.not_lacks_add (.ofResistance (resistanceOf "1")))
  exact ⟨root, (read?_cons (next?_value.mpr ⟨isResistance_one, rfl⟩)).trans hroot⟩

/-- Nothing is missing after an element. -/
theorem Lacks.last_not_endsElement {d : Draft} (hd : d.Lacks) {p : Progress} {ss : List Symbol}
    (h : p.after? ss = some (.reading d)) : ∀ s ∈ ss.getLast?, s.endsElement = false := by
  intro s hs
  obtain ⟨init, rfl⟩ := List.getLast?_eq_some_iff.mp hs
  obtain ⟨p', -, h⟩ := Progress.after?_append.mp h
  obtain ⟨d', p'', rfl, hnext, h⟩ := Progress.after?_cons.mp h
  cases h
  cases s with
  | value text =>
    obtain ⟨-, hd'⟩ := next?_value.mp hnext
    cases hd'
    exact absurd hd (d'.not_lacks_add _)
  | semicolon =>
    -- the closed group is an element of the group around it
    obtain ⟨-, c, -, hleave⟩ := (next?_separator (.inr rfl)).mp hnext
    obtain ⟨current, enclosing, dotted⟩ := d'
    cases enclosing with
    | nil => cases hleave
    | cons g gs =>
      cases hleave
      exact absurd hd (not_lacks_add ⟨g, gs, false⟩ _)
  | dot | colon | comma | finish => rfl

end Draft

/-- **Whatever has been taken in can be completed**: the text that ends in front
of the next token is a topology, or is one with a value at its end. -/
theorem exists_completion {text : String} {position : Nat} {before after : List Token}
    {t : Token} {p : Progress}
    (h : (TokenStream.ofString text position).sequence = before ++ t :: after)
    (hafter : (Progress.reading .start).after? (before.map Token.symbol) = some p) :
    ∃ text' c, parseTopology text' position = .ok c ∧
      before <+: (TokenStream.ofString text' position).tokens := by
  obtain ⟨cs, -, htokens, hcontinued⟩ := Lexer.exists_cut (l := .ofString text position) h
  have htokens : (Lexer.mk cs position).tokens = before ++ [] := by
    rw [List.append_nil]
    exact htokens
  have complete {ds : List Char} {more : List Token} {root : Element Float}
      (hds : (Lexer.mk ds position).tokens = before ++ more)
      (hroot : p.read? (more.map Token.symbol) = some root) :
      ∃ text' c, parseTopology text' position = .ok c ∧
        before <+: (TokenStream.ofString text' position).tokens := by
    have read : (TokenStream.ofString (String.ofList ds) position).tokens = before ++ more := by
      rw [← hds, TokenStream.ofString, Lexer.ofString, String.toList_ofList]
    refine ⟨String.ofList ds, .last root, parse_eq_ok.mpr ⟨root, ?_, rfl⟩, ⟨more, read.symm⟩⟩
    rw [read, List.map_append]
    exact (Progress.read?_of_after? hafter _).trans hroot
  cases p with
  | closed root => exact complete htokens rfl
  | reading d =>
    by_cases hd : d.Lacks
    · have last : ∀ u ∈ before.getLast?, u.symbol.isValue = false := by
        intro u hu
        apply Symbol.isValue_eq_false
        apply hd.last_not_endsElement hafter
        rw [List.getLast?_map, hu]
        rfl
      obtain ⟨root, hroot⟩ := d.exists_read?_value
      exact complete (hcontinued _ isWord_one last) hroot
    · obtain ⟨root, hroot⟩ := Draft.exists_read?_nil hd
      exact complete htokens hroot

/-! ## The refused token -/

/-- A failure to read a topology text refuses token `t`, and this is the first
token that no topology goes on with. -/
structure RefusedAt (text : String) (position : Nat) (e : Failure Float) (before : List Token)
    (t : Token) (after : List Token) : Prop where
  sequence_eq : (TokenStream.ofString text position).sequence = before ++ t :: after
  failure : ∃ cause, e = .malformed t.position cause
  /-- The position is that of no other token. -/
  position_ne : ∀ u ∈ before ++ after, u.position ≠ t.position
  /-- Some topology starts with the tokens before it, where they are. -/
  viable : ∃ text' c, parseTopology text' position = .ok c ∧
    before <+: (TokenStream.ofString text' position).tokens
  /-- No topology starts with the same symbols, the one of the refused token
  included. If that one is the end of the text, these are all symbols there are. -/
  not_viable : ∀ s : TokenStream,
    (before ++ [t]).map Token.symbol <+: s.sequence.map Token.symbol → ∀ c, s.parse.1 ≠ .ok c

/-- **A topology is refused at the first token that no topology goes on with**,
with a malformation at the position of that token. -/
theorem parseTopology_refuses_first {text : String} {position : Nat} {e : Failure Float}
    (h : parseTopology text position = .error e) :
    ∃ before t after, RefusedAt text position e before t after := by
  obtain ⟨before, t, after, hsequence, ⟨p, hafter, hrefuses⟩, hfailure⟩ :=
    TokenStream.parse_eq_error (fun t => Lexer.symbol_ne_finish) h
  refine ⟨before, t, after, hsequence, hfailure, fun u hu => ?_,
    exists_completion hsequence hafter, fun s hs c => ?_⟩
  · have apart := (Lexer.ofString text position).pairwise_sequence.2
    rw [show (Lexer.ofString text position).sequence = before ++ t :: after from hsequence,
      List.pairwise_append, List.pairwise_cons] at apart
    obtain ⟨-, ⟨behind, -⟩, front⟩ := apart
    rcases List.mem_append.mp hu with hu | hu
    · exact Nat.ne_of_lt (front u hu t List.mem_cons_self)
    · exact Nat.ne_of_gt (behind u hu)
  · rw [List.map_append, List.map_singleton] at hs
    exact hrefuses.not_parsed hafter hs c

/-- A branch that starts with a dot, inside a group. -/
theorem parseTopology_refuses_first_dotInGroup :
    ∃ e, parseTopology "100.:220,.47;5" 3 = .error e ∧
      ∃ before t after, RefusedAt "100.:220,.47;5" 3 e before t after := by
  have refused : (parseTopology "100.:220,.47;5" 3).isOk = false := by decide +kernel
  cases h : parseTopology "100.:220,.47;5" 3 with
  | ok c =>
    rw [h] at refused
    cases refused
  | error e => exact ⟨e, rfl, parseTopology_refuses_first h⟩

end SeriesParallel
