import Mathlib.Logic.Relation
import SeriesParallel.Proofs.Topology.Refusal
import SeriesParallel.Proofs.Topology.Symbols

/-!
# Topology — one network, many spellings

A topology can be written in many ways. White space beside separators does not
show in its symbols. A dot only says that a further element of the chain
follows, so it can be left out wherever what stands around it does not run
together. A semicolon at the end of the text does what the end of the text does
on its own: it closes the innermost group that is open, as long as there is
one.
-/

namespace SeriesParallel

/-! ## Symbols that are read -/

theorem TokenStream.map_symbol_tokens (text : String) (position : Nat) :
    (ofString text position).tokens.map Token.symbol = textSymbols text.toList :=
  (Lexer.ofString text position).map_symbol_tokens

/-- A topology is parsed when its symbols are read. -/
theorem parseTopology_eq_ok {text : String} {position : Nat} {c : Chain Float} :
    parseTopology text position = .ok c ↔
      ∃ root, (Progress.reading .start).read? (textSymbols text.toList) = some root ∧
        c = .last root := by
  rw [← TokenStream.map_symbol_tokens text position]
  exact parse_eq_ok

/-- Symbols that are read to the end are taken in one after another. -/
theorem Progress.exists_after?_of_read? {p : Progress} {ss rest : List Symbol}
    {root : Element Float} (h : p.read? (ss ++ rest) = some root) :
    ∃ q, p.after? ss = some q ∧ q.read? rest = some root := by
  induction ss generalizing p with
  | nil => exact ⟨p, rfl, h⟩
  | cons s ss ih =>
    cases p with
    | closed root' => simp [read?] at h
    | reading d =>
      obtain ⟨p', hnext, h⟩ := Draft.exists_next?_of_read? h
      obtain ⟨q, hq, hroot⟩ := ih h
      exact ⟨q, after?_cons.mpr ⟨d, p', rfl, hnext, hq⟩, hroot⟩

/-! ## Dots -/

namespace Draft

variable {d : Draft} {ss : List Symbol} {root : Element Float}

/-- After a dot, nothing is taken in but the start of an element. -/
theorem starts_of_next?_dotted {s : Symbol} {p : Progress} (hd : d.dotted = true)
    (h : d.next? s = some p) (ss : List Symbol) : Starts (s :: ss) := by
  have dotless (undotted : d.dotted = false) : Starts (s :: ss) :=
    absurd (hd.symm.trans undotted) Bool.noConfusion
  cases s with
  | value t => trivial
  | colon => trivial
  | dot => exact dotless (next?_dot.mp h).1
  | comma => exact dotless ((next?_separator (.inl rfl)).mp h).1
  | semicolon => exact dotless ((next?_separator (.inr rfl)).mp h).1
  | finish =>
    rw [next?_finish] at h
    cases h

/-- After a dot, an element follows. -/
theorem starts_of_read?_dotted (hd : d.dotted = true) (h : d.read? ss = some root) :
    Starts ss := by
  cases ss with
  | nil =>
    obtain ⟨undotted, -⟩ := read?_nil.mp h
    exact absurd (hd.symm.trans undotted) Bool.noConfusion
  | cons s ss =>
    obtain ⟨p, hnext, -⟩ := exists_next?_of_read? h
    exact starts_of_next?_dotted hd hnext ss

/-- In front of an element, a dot before it does not matter. -/
theorem read?_dotted (hss : Starts ss) : { d with dotted := true }.read? ss = d.read? ss := by
  match ss with
  | .value _ :: _ => rfl
  | .colon :: _ => rfl

/-- **A dot before an element can be left out.** -/
theorem read?_dot_cons (h : d.read? (.dot :: ss) = some root) : d.read? ss = some root := by
  obtain ⟨p, hnext, h⟩ := exists_next?_of_read? h
  obtain ⟨-, -, rfl⟩ := next?_dot.mp hnext
  have hss : Starts ss := starts_of_read?_dotted rfl h
  exact (read?_dotted hss).symm.trans h

end Draft

/-- Symbols whose last one can end an element. -/
def Ends (ss : List Symbol) : Prop := ∃ s ∈ ss.getLast?, s.endsElement = true

section

variable {ss rest : List Symbol} {root : Element Float}

/-- A dot can be left out. -/
theorem Progress.read?_undot {p : Progress} (h : p.read? (ss ++ .dot :: rest) = some root) :
    p.read? (ss ++ rest) = some root := by
  obtain ⟨q, hq, hroot⟩ := exists_after?_of_read? h
  rw [read?_of_after? hq]
  cases q with
  | closed root' => simp [read?] at hroot
  | reading d => exact Draft.read?_dot_cons hroot

/-- A dot can be written between two elements. -/
theorem Progress.read?_dot {p : Progress} (h : p.read? (ss ++ rest) = some root) (hss : Ends ss)
    (hrest : Starts rest) : p.read? (ss ++ .dot :: rest) = some root := by
  obtain ⟨q, hq, hroot⟩ := exists_after?_of_read? h
  rw [read?_of_after? hq]
  cases q with
  | closed root' =>
    cases rest with
    | nil => exact absurd hrest id
    | cons s rest => simp [read?] at hroot
  | reading d =>
    have complete : ¬d.Lacks := by
      intro hd
      obtain ⟨s, hs, ends⟩ := hss
      exact absurd ((hd.last_not_endsElement hq s hs).symm.trans ends) Bool.noConfusion
    obtain ⟨hdotted, hseries⟩ := not_or.mp complete
    have dot : d.next? .dot = some (.reading { d with dotted := true }) :=
      Draft.next?_dot.mpr ⟨Bool.eq_false_iff.mpr hdotted, hseries, rfl⟩
    exact (Draft.read?_cons dot).trans ((Draft.read?_dotted hrest).trans hroot)

end

/-! ## Semicolons -/

/-- The number of groups that are open, the implicit one included. -/
def Progress.openGroups : Progress → Nat
  | .reading d => d.enclosing.length + 1
  | .closed _ => 0

/-- One symbol opens a group, and one closes a group. -/
theorem Draft.openGroups_next? {d : Draft} {s : Symbol} {p : Progress} (h : d.next? s = some p) :
    p.openGroups + [s].count .semicolon
      = (Progress.reading d).openGroups + [s].count .colon := by
  cases s with
  | value t =>
    obtain ⟨-, rfl⟩ := next?_value.mp h
    rfl
  | dot =>
    obtain ⟨-, -, rfl⟩ := next?_dot.mp h
    rfl
  | colon =>
    cases h
    rfl
  | comma =>
    obtain ⟨-, c, -, hp⟩ := (next?_separator (.inl rfl)).mp h
    cases hp
    rfl
  | semicolon =>
    obtain ⟨-, c, -, hp⟩ := (next?_separator (.inr rfl)).mp h
    obtain ⟨current, enclosing, dotted⟩ := d
    cases enclosing <;> cases hp <;> rfl
  | finish =>
    rw [next?_finish] at h
    cases h

/-- **Every colon opens a group, and every semicolon closes one.** -/
theorem Progress.openGroups_after? {p q : Progress} {ss : List Symbol} (h : p.after? ss = some q) :
    q.openGroups + ss.count .semicolon = p.openGroups + ss.count .colon := by
  induction ss generalizing p with
  | nil =>
    cases h
    rfl
  | cons s ss ih =>
    obtain ⟨d, p', rfl, hnext, hafter⟩ := after?_cons.mp h
    have step := d.openGroups_next? hnext
    have rest := ih hafter
    rw [← List.singleton_append, List.count_append, List.count_append]
    omega

/-- **A semicolon closes a group as the end of the text does.** -/
theorem Draft.next?_semicolon {d : Draft} {root : Element Float} (h : d.read? [] = some root) :
    ∃ p, d.next? .semicolon = some p ∧ p.read? [] = some root := by
  obtain ⟨hdotted, c, hc, hleave⟩ := read?_nil.mp h
  exact ⟨_, (next?_separator (.inr rfl)).mpr ⟨hdotted, c, hc, rfl⟩, hleave⟩

/-- Semicolons close the groups that are open, one after another. -/
theorem Progress.after?_semicolons {p : Progress} {root : Element Float} (h : p.read? [] = some root)
    {j : Nat} (hj : j ≤ p.openGroups) :
    ∃ q, p.after? (.replicate j .semicolon) = some q ∧ q.read? [] = some root ∧
      q.openGroups + j = p.openGroups := by
  induction j generalizing p with
  | zero => exact ⟨p, rfl, h, rfl⟩
  | succ j ih =>
    cases p with
    | closed root' => exact absurd hj (Nat.not_succ_le_zero j)
    | reading d =>
      obtain ⟨p', hnext, hroot⟩ := d.next?_semicolon h
      have fewer : p'.openGroups + 1 = (Progress.reading d).openGroups := d.openGroups_next? hnext
      obtain ⟨q, hq, hread, hopen⟩ := ih hroot (by omega)
      exact ⟨q, after?_cons.mpr ⟨d, p', rfl, hnext, hq⟩, hread, by omega⟩

/-- When no group is open, the whole network has been read. -/
theorem Progress.eq_closed {p : Progress} {root : Element Float} (h : p.read? [] = some root)
    (hopen : p.openGroups = 0) : p = .closed root := by
  cases p with
  | reading d => cases hopen
  | closed root' =>
    cases h
    rfl

theorem textSymbols_append_semicolons (cs : List Char) (j : Nat) :
    textSymbols (cs ++ .replicate j ';') = textSymbols cs ++ .replicate j .semicolon := by
  induction j generalizing cs with
  | zero => simp
  | succ j ih =>
    have first : textSymbols (cs ++ [';']) = textSymbols cs ++ [.semicolon] := by
      rw [textSymbols_separator cs rfl, textSymbols_of_blank (List.forall_mem_nil _)]
    rw [List.replicate_succ, List.append_cons, ih, first, ← List.append_cons, List.replicate_succ]

/-! ## Spellings of a text -/

/-- A place beside a separator, or at an end of the text. -/
def AtSeparator (cs ds : List Char) : Prop :=
  cs = [] ∨ ds = [] ∨ (∃ c ∈ cs.getLast?, isSeparator c) ∨ ∃ d ∈ ds.head?, isSeparator d

/-- **White space beside a separator does not show.** -/
theorem textSymbols_blanks {cs bs ds : List Char} (h : AtSeparator cs ds)
    (hbs : ∀ b ∈ bs, Text.isBlank b) : textSymbols (cs ++ bs ++ ds) = textSymbols (cs ++ ds) := by
  rcases h with rfl | rfl | ⟨c, hc, hsep⟩ | ⟨d, hd, hsep⟩
  · rw [List.nil_append, List.nil_append, textSymbols_blanks_append hbs]
  · rw [List.append_nil, List.append_nil, textSymbols_append_blanks cs hbs]
  · obtain ⟨cs, rfl⟩ := List.getLast?_eq_some_iff.mp hc
    obtain ⟨s, hs⟩ := Option.isSome_iff_exists.mp hsep
    rw [← List.append_cons, ← List.append_cons, List.append_assoc, List.cons_append,
      textSymbols_separator _ hs, textSymbols_separator _ hs, textSymbols_blanks_append hbs]
  · obtain ⟨ds, rfl⟩ := List.head?_eq_some_iff.mp hd
    obtain ⟨s, hs⟩ := Option.isSome_iff_exists.mp hsep
    rw [textSymbols_separator _ hs, textSymbols_separator _ hs, textSymbols_append_blanks cs hbs]

/-- Another spelling of a text, which differs from it in one place. -/
inductive Respelled : List Char → List Char → Prop where
  /-- White space beside a separator. -/
  | blanks (cs bs ds : List Char) (place : AtSeparator cs ds) (blank : ∀ b ∈ bs, Text.isBlank b) :
      Respelled (cs ++ ds) (cs ++ bs ++ ds)
  /-- A dot less, where it does not keep two values apart. -/
  | undot (cs ds : List Char)
      (apart : (∀ s ∈ (textSymbols cs).getLast?, s.isValue = false) ∨
        ∀ s ∈ (textSymbols ds).head?, s.isValue = false) :
      Respelled (cs ++ '.' :: ds) (cs ++ ds)
  /-- A dot more, between two elements: not inside a value, where an element
  ends in front of it and an element starts behind it. -/
  | dot (cs ds : List Char) (whole : textSymbols (cs ++ ds) = textSymbols cs ++ textSymbols ds)
      (ends : Ends (textSymbols cs)) (starts : Starts (textSymbols ds)) :
      Respelled (cs ++ ds) (cs ++ '.' :: ds)

/-- **Another spelling is read as the same network.** -/
theorem Respelled.read? {cs ds : List Char} (h : Respelled cs ds) {p : Progress}
    {root : Element Float} (hroot : p.read? (textSymbols cs) = some root) :
    p.read? (textSymbols ds) = some root := by
  have cut (cs ds : List Char) :
      textSymbols (cs ++ '.' :: ds) = textSymbols cs ++ .dot :: textSymbols ds :=
    textSymbols_separator cs rfl ds
  cases h with
  | blanks cs bs ds place blank =>
    rw [textSymbols_blanks place blank]
    exact hroot
  | undot cs ds apart =>
    rw [textSymbols_append apart]
    rw [cut] at hroot
    exact Progress.read?_undot hroot
  | dot cs ds whole ends starts =>
    rw [cut]
    rw [whole] at hroot
    exact Progress.read?_dot hroot ends starts

/-- Any number of changes, one after another, change nothing either. -/
theorem read?_of_respelled {cs ds : List Char} (h : Relation.ReflTransGen Respelled cs ds)
    {p : Progress} {root : Element Float} (hroot : p.read? (textSymbols cs) = some root) :
    p.read? (textSymbols ds) = some root := by
  induction h with
  | refl => exact hroot
  | tail _ step ih => exact step.read? ih

/-! ## Semicolons at the end of a text -/

/-- A text with semicolons behind it. -/
def closedBy (text : String) (j : Nat) : String := text ++ String.ofList (.replicate j ';')

theorem textSymbols_closedBy (text : String) (j : Nat) :
    textSymbols (closedBy text j).toList
      = textSymbols text.toList ++ .replicate j .semicolon := by
  rw [closedBy, String.toList_append, String.toList_ofList, textSymbols_append_semicolons]

section

variable {text : String} {p : Progress} {root : Element Float} {j : Nat}

/-- Semicolons may close the groups that are open. -/
theorem parseTopology_closedBy
    (hp : (Progress.reading .start).after? (textSymbols text.toList) = some p)
    (hroot : p.read? [] = some root) (hj : j ≤ p.openGroups) (position : Nat) :
    parseTopology (closedBy text j) position = .ok (.last root) := by
  obtain ⟨q, hq, hread, -⟩ := p.after?_semicolons hroot hj
  refine parseTopology_eq_ok.mpr ⟨root, ?_, rfl⟩
  rw [textSymbols_closedBy, Progress.read?_of_after? hp, ← List.append_nil (.replicate ..),
    Progress.read?_of_after? hq, hread]

/-- **A semicolon too many is refused.** -/
theorem parseTopology_overclosed
    (hp : (Progress.reading .start).after? (textSymbols text.toList) = some p)
    (hroot : p.read? [] = some root) (hj : p.openGroups < j) (position : Nat) :
    ∃ q, parseTopology (closedBy text j) position = .error (.malformed q (.trailing ";")) := by
  obtain ⟨q, hq, hread, hopen⟩ := p.after?_semicolons hroot le_rfl
  have closed : q = .closed root := Progress.eq_closed hread (by omega)
  obtain ⟨i, rfl⟩ := Nat.exists_eq_add_of_lt hj
  have symbols : (TokenStream.ofString (closedBy text (p.openGroups + i + 1)) position).tokens.map
      Token.symbol = (textSymbols text.toList ++ .replicate p.openGroups .semicolon)
        ++ .semicolon :: .replicate i .semicolon := by
    rw [TokenStream.map_symbol_tokens, textSymbols_closedBy, Nat.add_assoc,
      ← List.replicate_append_replicate, List.replicate_succ, List.append_assoc]
  obtain ⟨before, after, htokens, hbefore, hafter⟩ := List.map_eq_append_iff.mp symbols
  obtain ⟨t, rest, rfl, ht, -⟩ := List.map_eq_cons_iff.mp hafter
  have taken : (Progress.reading .start).after? (before.map Token.symbol) = some (.closed root) := by
    rw [hbefore, ← closed]
    exact Progress.after?_append.mpr ⟨p, hp, hq⟩
  have refused := TokenStream.parse_eq_trailing htokens taken
  rw [ht] at refused
  exact ⟨t.position, refused⟩

end

/-- **Spelling does not matter.** Take a text that is parsed. White space beside
its separators and at its ends, dots that keep no two values apart and dots
between elements change nothing: the same network is parsed. For every group
that is still open at its end, the implicit one included, there may be one
semicolon more; any further one is refused. -/
theorem parseTopology_respelled {text : String} {position : Nat} {c : Chain Float}
    (h : parseTopology text position = .ok c) :
    (∀ text', Relation.ReflTransGen Respelled text.toList text'.toList →
      parseTopology text' position = .ok c) ∧
    ∃ p, (Progress.reading .start).after?
        ((TokenStream.ofString text position).tokens.map Token.symbol) = some p ∧
      p.openGroups + text.toList.count ';' = text.toList.count ':' + 1 ∧
      ∀ j, (j ≤ p.openGroups → parseTopology (closedBy text j) position = .ok c) ∧
        (p.openGroups < j → ∃ q,
          parseTopology (closedBy text j) position = .error (.malformed q (.trailing ";"))) := by
  obtain ⟨root, hroot, rfl⟩ := parseTopology_eq_ok.mp h
  have whole := hroot
  rw [← List.append_nil (textSymbols _)] at whole
  obtain ⟨p, hp, hread⟩ := Progress.exists_after?_of_read? whole
  refine ⟨fun text' h' => parseTopology_eq_ok.mpr ⟨root, read?_of_respelled h' hroot, rfl⟩, p, ?_, ?_,
    fun j => ⟨fun hj => parseTopology_closedBy hp hread hj position,
      fun hj => parseTopology_overclosed hp hread hj position⟩⟩
  · rw [TokenStream.map_symbol_tokens]
    exact hp
  · have semicolon : Symbol.ofSeparator? ';' = some .semicolon := rfl
    have colon : Symbol.ofSeparator? ':' = some .colon := rfl
    have counts := Progress.openGroups_after? hp
    rw [count_textSymbols semicolon, count_textSymbols colon] at counts
    rw [counts, Nat.add_comm]
    rfl

/-- A group in front of which a dot, and behind whose colon an em space, can be
written; it is open at the end, as the implicit one is. -/
theorem parseTopology_respelled_openGroup :
    ∃ c, parseTopology "100:220,330" 3 = .ok c ∧
      parseTopology "100.:\u2003220,330" 3 = .ok c ∧
      parseTopology (closedBy "100:220,330" 2) 3 = .ok c ∧
      ∃ q, parseTopology (closedBy "100:220,330" 3) 3 = .error (.malformed q (.trailing ";")) := by
  have parsed : ∃ c, parseTopology "100:220,330" 3 = .ok c := by
    have accepted : (parseTopology "100:220,330" 3).isOk := by decide +kernel
    cases h : parseTopology "100:220,330" 3 with
    | ok c => exact ⟨c, rfl⟩
    | error e =>
      rw [h] at accepted
      cases accepted
  obtain ⟨c, h⟩ := parsed
  obtain ⟨spellings, p, -, counts, closers⟩ := parseTopology_respelled h
  have dotted : Respelled "100:220,330".toList "100.:220,330".toList := by
    refine .dot "100".toList ":220,330".toList (by decide +kernel)
      ⟨.value "100", by decide +kernel, rfl⟩ ?_
    have behind : textSymbols ":220,330".toList
        = [.colon, .value "220", .comma, .value "330"] := by decide +kernel
    rw [behind]
    trivial
  have spaced : Respelled "100.:220,330".toList "100.:\u2003220,330".toList :=
    .blanks "100.:".toList ['\u2003'] "220,330".toList (.inr (.inr (.inl ⟨':', rfl, rfl⟩)))
      (List.forall_mem_singleton.mpr (by decide))
  have two : p.openGroups = 2 := by
    have hcounts : p.openGroups + 0 = 1 + 1 := counts
    omega
  exact ⟨c, h, spellings _ (.tail (.single dotted) spaced), (closers 2).1 (by omega),
    (closers 3).2 (by omega)⟩

end SeriesParallel
