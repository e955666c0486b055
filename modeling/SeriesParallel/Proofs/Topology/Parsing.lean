import SeriesParallel.Proofs.Topology.Acceptance

/-!
# Topology — parsing and the grammar

The parser accepts what the grammar derives, and answers with the network of
the derivation.

**Completeness** reads a phrase in front of any symbols that may follow it: the
draft takes in exactly what the phrase stands for. **Soundness** goes along with
a draft: what has been read is always the start of a phrase, an `OpenPhrase` for
each group that is open, and the draft is what these stand for.
-/

namespace SeriesParallel

/-! ## Completeness -/

/-- The draft with a chain more on the branch being read. -/
def Draft.addSeries (d : Draft) (c : Chain Float) : Draft :=
  ⟨{ d.current with series := c.elements.reverse ++ d.current.series }, d.enclosing, false⟩

theorem Draft.addSeries_link (d : Draft) (e : Element Float) (c : Chain Float) :
    d.addSeries (.link e c) = (d.add e).addSeries c := by
  simp [addSeries, add, OpenGroup.add, Chain.elements]

theorem Draft.chain?_addSeries {d : Draft} (c : Chain Float) (h : d.current.series = []) :
    (d.addSeries c).current.chain? = some c := by
  simp [addSeries, OpenGroup.chain?, h, Chain.ofElements?_elements]

/-- All values among some symbols are resistances. -/
def ReadableValues (ss : List Symbol) : Prop := ∀ t, .value t ∈ ss → IsResistance t

theorem ReadableValues.left {ss ss' : List Symbol} (h : ReadableValues (ss ++ ss')) :
    ReadableValues ss := fun t ht => h t (List.mem_append_left _ ht)

theorem ReadableValues.right {ss ss' : List Symbol} (h : ReadableValues (ss ++ ss')) :
    ReadableValues ss' := fun t ht => h t (List.mem_append_right _ ht)

mutual

/-- Reading an element puts what it stands for on the branch. -/
theorem ElementPhrase.read?_yield : (e : ElementPhrase) → (d : Draft) → {r : List Symbol} →
    e.FollowedBy r → ReadableValues e.yield →
    d.read? (e.yield ++ r) = (d.add e.element).read? r
  | .value t, d, r, _, hv => by
    have : IsResistance t := hv t (by simp [ElementPhrase.yield])
    exact Draft.read?_cons (Draft.next?_value.mpr ⟨this, rfl⟩)
  | .group g, d, r, h, hv => by
    have inside := g.read?_yield d.enter h (@ReadableValues.right [.colon] _ hv) rfl rfl
    exact (Draft.read?_cons (Draft.next?_colon d)).trans inside

/-- Reading a chain puts its elements on the branch. -/
theorem SeriesPhrase.read?_yield : (s : SeriesPhrase) → (d : Draft) → {r : List Symbol} →
    s.FollowedBy r → ReadableValues s.yield →
    d.read? (s.yield ++ r) = (d.addSeries s.chain).read? r
  | .one e, d, r, h, hv => e.read?_yield d h hv
  | .more e dotted s, d, r, h, hv => by
    have he := h.1
    rw [List.append_assoc] at he
    rw [SeriesPhrase.yield, List.append_assoc, List.append_assoc, e.read?_yield d he hv.left,
      SeriesPhrase.chain, Draft.addSeries_link]
    have rest (d' : Draft) : d'.read? (s.yield ++ r) = (d'.addSeries s.chain).read? r :=
      s.read?_yield d' h.2 (ReadableValues.right hv.right)
    cases dotted
    · exact rest _
    · have dot : (d.add e.element).next? .dot
          = some (.reading { d.add e.element with dotted := true }) :=
        Draft.next?_dot.mpr ⟨rfl, by simp [Draft.add, OpenGroup.add], rfl⟩
      exact (Draft.read?_cons dot).trans (rest _)

/-- Reading a group, from the start of a branch on, closes the innermost group
with its branches. -/
theorem GroupPhrase.read?_yield : (g : GroupPhrase) → (d : Draft) → {r : List Symbol} →
    g.FollowedBy r → ReadableValues g.yield → d.current.series = [] → d.dotted = false →
    d.read? (g.yield ++ r)
      = (Draft.leave (.parallel (d.current.branches.reverse ++ g.branches)) d.enclosing).read? r
  | .last s closed, d, r, h, hv, hseries, _ => by
    have chain := Draft.chain?_addSeries s.chain hseries
    have branches : (s.chain :: (d.addSeries s.chain).current.branches).reverse
        = d.current.branches.reverse ++ [s.chain] := by simp [Draft.addSeries]
    rw [GroupPhrase.yield, List.append_assoc, s.read?_yield d h.1 hv.left, GroupPhrase.branches,
      ← branches]
    cases closed
    · rw [h.2 rfl]
      refine Option.ext fun root => Draft.read?_nil.trans ⟨fun h => ?_, fun h => ?_⟩
      · obtain ⟨-, c, hc, h⟩ := h
        rw [chain] at hc
        cases hc
        exact h
      · exact ⟨rfl, s.chain, chain, h⟩
    · exact Draft.read?_cons
        ((Draft.next?_separator (.inr rfl)).mpr ⟨rfl, s.chain, chain, rfl⟩)
  | .more s g, d, r, h, hv, hseries, _ => by
    have chain := Draft.chain?_addSeries s.chain hseries
    have comma := (Draft.next?_separator (.inl rfl)).mpr ⟨rfl, s.chain, chain, rfl⟩
    have rest := g.read?_yield ⟨⟨s.chain :: d.current.branches, []⟩, d.enclosing, false⟩ h.2
      (@ReadableValues.right [.comma] _ hv.right) rfl rfl
    rw [GroupPhrase.yield, List.append_assoc, s.read?_yield d h.1 hv.left, GroupPhrase.branches]
    refine (Draft.read?_cons comma).trans (rest.trans ?_)
    simp

end

/-- **Completeness**: what the grammar derives is read, as the network of the
derivation. -/
theorem GroupPhrase.Derives.read? {g : GroupPhrase} {ss : List Symbol} (h : g.Derives ss)
    (hv : ReadableValues ss) : Draft.start.read? ss = some (.parallel g.branches) := by
  obtain ⟨rfl, hfollow⟩ := h
  have := g.read?_yield .start hfollow hv rfl rfl
  rw [List.append_nil] at this
  rw [this]
  rfl

/-! ## Phrases that grow -/

/-- The chain with an element more at its end. -/
def SeriesPhrase.snoc : SeriesPhrase → Bool → ElementPhrase → SeriesPhrase
  | .one e, dotted, f => .more e dotted (.one f)
  | .more e dotted' s, dotted, f => .more e dotted' (s.snoc dotted f)

namespace SeriesPhrase

theorem yield_snoc (s : SeriesPhrase) (dotted : Bool) (f : ElementPhrase) :
    (s.snoc dotted f).yield = s.yield ++ (Symbol.dot.optional dotted ++ f.yield) := by
  match s with
  | .one e => simp [snoc, yield]
  | .more e dotted' s => simp [snoc, yield, yield_snoc s]

theorem elements_chain_snoc (s : SeriesPhrase) (dotted : Bool) (f : ElementPhrase) :
    (s.snoc dotted f).chain.elements = s.chain.elements ++ [f.element] := by
  match s with
  | .one e => simp [snoc, chain, Chain.elements]
  | .more e dotted' s => simp [snoc, chain, Chain.elements, elements_chain_snoc s]

theorem FollowedBy.snoc {s : SeriesPhrase} {dotted : Bool} {f : ElementPhrase} {r : List Symbol}
    (hs : ∀ r, s.FollowedBy r) (hf : f.FollowedBy r) : (s.snoc dotted f).FollowedBy r := by
  match s with
  | .one e => exact ⟨hs _, hf⟩
  | .more e dotted' s =>
    have head := (hs (Symbol.dot.optional dotted ++ f.yield ++ r)).1
    refine ⟨?_, FollowedBy.snoc (fun r => (hs r).2) hf⟩
    simpa [yield_snoc] using head

end SeriesPhrase

/-- The group with finished chains, latest first, in front of it. -/
def GroupPhrase.preceded (g : GroupPhrase) : List SeriesPhrase → GroupPhrase
  | [] => g
  | s :: fs => (GroupPhrase.more s g).preceded fs

/-- The symbols of finished chains, latest first, each with the comma after it. -/
def finishedYield (fs : List SeriesPhrase) : List Symbol :=
  fs.reverse.flatMap fun s => s.yield ++ [.comma]

theorem finishedYield_cons (s : SeriesPhrase) (fs : List SeriesPhrase) :
    finishedYield (s :: fs) = finishedYield fs ++ (s.yield ++ [.comma]) := by
  simp [finishedYield]

namespace GroupPhrase

theorem yield_preceded (g : GroupPhrase) (fs : List SeriesPhrase) :
    (g.preceded fs).yield = finishedYield fs ++ g.yield := by
  induction fs generalizing g with
  | nil => rfl
  | cons s fs ih => simp [preceded, ih, finishedYield_cons, yield]

theorem branches_preceded (g : GroupPhrase) (fs : List SeriesPhrase) :
    (g.preceded fs).branches = (fs.map SeriesPhrase.chain).reverse ++ g.branches := by
  induction fs generalizing g with
  | nil => rfl
  | cons s fs ih => simp [preceded, ih, branches]

theorem FollowedBy.preceded {g : GroupPhrase} {fs : List SeriesPhrase} {r : List Symbol}
    (hfs : ∀ s ∈ fs, ∀ r, s.FollowedBy r) (hg : g.FollowedBy r) :
    (g.preceded fs).FollowedBy r := by
  induction fs generalizing g with
  | nil => exact hg
  | cons s fs ih =>
    exact ih (fun s hs => hfs s (List.mem_cons_of_mem _ hs)) ⟨hfs s List.mem_cons_self _, hg⟩

end GroupPhrase

/-! ## Open phrases -/

/-- What has been read of a group that is open: its finished chains, latest
first, the chain being read, and whether a dot stands after it. -/
structure OpenPhrase where
  finished : List SeriesPhrase
  series : Option SeriesPhrase
  dotted : Bool

namespace OpenPhrase

/-- Nothing has been read. -/
def empty : OpenPhrase := ⟨[], none, false⟩

/-- The symbols that have been read. -/
def yield (p : OpenPhrase) : List Symbol :=
  finishedYield p.finished ++ (p.series.elim [] SeriesPhrase.yield ++ Symbol.dot.optional p.dotted)

/-- The open group of a draft that has read these symbols. -/
def group (p : OpenPhrase) : OpenGroup :=
  ⟨p.finished.map SeriesPhrase.chain, (p.series.elim [] fun s => s.chain.elements).reverse⟩

/-- What has been read can be followed by anything, and a dot only stands after
an element. -/
structure Closed (p : OpenPhrase) : Prop where
  finished : ∀ s ∈ p.finished, ∀ r, s.FollowedBy r
  series : ∀ s ∈ p.series, ∀ r, s.FollowedBy r
  dotted : p.dotted = true → p.series ≠ none

/-- The chain being read with an element more. -/
def extended (p : OpenPhrase) (e : ElementPhrase) : SeriesPhrase :=
  match p.series with
  | none => .one e
  | some s => s.snoc p.dotted e

/-- The open phrase after a further element. -/
def add (p : OpenPhrase) (e : ElementPhrase) : OpenPhrase := ⟨p.finished, some (p.extended e), false⟩

variable {p : OpenPhrase}

/-- Only a chain that is being read can have a dot after it. -/
theorem Closed.dotted_eq (hp : p.Closed) (h : p.series = none) : p.dotted = false := by
  cases hd : p.dotted with
  | false => rfl
  | true => exact absurd h (hp.dotted hd)

theorem yield_add (hp : p.Closed) (e : ElementPhrase) : (p.add e).yield = p.yield ++ e.yield := by
  obtain ⟨finished, series, dotted⟩ := p
  cases series with
  | none =>
    have hd : dotted = false := hp.dotted_eq rfl
    simp [add, extended, yield, SeriesPhrase.yield, hd, Symbol.optional]
  | some s => simp [add, extended, yield, SeriesPhrase.yield_snoc, Symbol.optional]

theorem group_add (p : OpenPhrase) (e : ElementPhrase) :
    (p.add e).group = p.group.add e.element := by
  obtain ⟨finished, series, dotted⟩ := p
  cases series with
  | none => simp [add, extended, group, OpenGroup.add, SeriesPhrase.chain, Chain.elements]
  | some s => simp [add, extended, group, OpenGroup.add, SeriesPhrase.elements_chain_snoc]

theorem Closed.followedBy_extended (hp : p.Closed) {e : ElementPhrase} {r : List Symbol}
    (he : e.FollowedBy r) : (p.extended e).FollowedBy r := by
  obtain ⟨finished, series, dotted⟩ := p
  cases series with
  | none => exact he
  | some s => exact .snoc (hp.series s rfl) he

theorem Closed.add (hp : p.Closed) {e : ElementPhrase} (he : ∀ r, e.FollowedBy r) :
    (p.add e).Closed where
  finished := hp.finished
  series := by
    intro s hs r
    cases hs
    exact hp.followedBy_extended (he r)
  dotted := by simp [OpenPhrase.add]

/-- The group that an open phrase ends as, by a semicolon or by the end of the
text, with its last chain. -/
def close (p : OpenPhrase) (s : SeriesPhrase) (closed : Bool) : GroupPhrase :=
  (GroupPhrase.last s closed).preceded p.finished

theorem branches_close (p : OpenPhrase) (s : SeriesPhrase) (closed : Bool) :
    (p.close s closed).branches = (s.chain :: p.group.branches).reverse := by
  simp [close, GroupPhrase.branches_preceded, GroupPhrase.branches, group]

theorem yield_close {s : SeriesPhrase} (hs : p.series = some s) (hd : p.dotted = false)
    (closed : Bool) : (p.close s closed).yield = p.yield ++ Symbol.semicolon.optional closed := by
  simp [close, GroupPhrase.yield_preceded, GroupPhrase.yield, yield, hs, hd, Symbol.optional]

/-- A chain is being read exactly when the draft has one to end. -/
theorem chain?_group {c : Chain Float} :
    p.group.chain? = some c ↔ ∃ s, p.series = some s ∧ s.chain = c := by
  obtain ⟨finished, series, dotted⟩ := p
  cases series with
  | none => simp [group, OpenGroup.chain?, Chain.ofElements?]
  | some s => simp [group, OpenGroup.chain?, Chain.ofElements?_elements]

end OpenPhrase

/-! ## Soundness -/

/-- The symbols of the groups around the innermost one, innermost first, each
with the colon after it. -/
def enclosingYield (ps : List OpenPhrase) : List Symbol :=
  ps.reverse.flatMap fun p => p.yield ++ [.colon]

theorem enclosingYield_cons (p : OpenPhrase) (ps : List OpenPhrase) :
    enclosingYield (p :: ps) = enclosingYield ps ++ (p.yield ++ [.colon]) := by
  simp [enclosingYield]

/-- The draft that open phrases stand for, innermost first. -/
def OpenPhrase.draft (p : OpenPhrase) (ps : List OpenPhrase) : Draft :=
  ⟨p.group, ps.map group, p.dotted⟩

/-- The end of the text closes the groups around a group one after another. -/
theorem exists_derivation_of_leave {ps : List OpenPhrase} {g : GroupPhrase} {root : Element Float}
    (hps : ∀ p ∈ ps, p.Closed) (hg : g.FollowedBy [])
    (h : (Draft.leave (.parallel g.branches) (ps.map OpenPhrase.group)).read? [] = some root) :
    ∃ g' : GroupPhrase, g'.Derives (enclosingYield ps ++ g.yield) ∧
      root = .parallel g'.branches := by
  induction ps generalizing g with
  | nil =>
    simp only [List.map_nil, Draft.leave, Progress.read?, if_true, Option.some.injEq] at h
    exact ⟨g, ⟨rfl, hg⟩, h.symm⟩
  | cons p ps ih =>
    have hp : p.Closed := hps p List.mem_cons_self
    have inner : (p.add (.group g)).group = p.group.add (.parallel g.branches) :=
      p.group_add (.group g)
    simp only [List.map_cons, Draft.leave, ← inner, Progress.read?] at h
    obtain ⟨-, c, hc, h⟩ := Draft.read?_nil.mp h
    obtain ⟨s, hs, rfl⟩ := OpenPhrase.chain?_group.mp hc
    cases hs
    -- the group around `g` is closed by the end of the text as well
    let outer : GroupPhrase := (p.add (.group g)).close (p.extended (.group g)) false
    have follow : outer.FollowedBy [] :=
      .preceded hp.finished ⟨hp.followedBy_extended hg, fun _ => rfl⟩
    have yield : outer.yield = p.yield ++ .colon :: g.yield :=
      (OpenPhrase.yield_close rfl rfl false).trans
        ((List.append_nil _).trans (OpenPhrase.yield_add hp (.group g)))
    rw [← OpenPhrase.branches_close _ _ false] at h
    obtain ⟨g', hg', hroot⟩ := ih (fun q hq => hps q (List.mem_cons_of_mem _ hq)) follow h
    refine ⟨g', ?_, hroot⟩
    simpa [enclosingYield_cons, yield] using hg'

/-- Some progress goes along with the symbols that have been read: they are the
start of a phrase that the draft stands for, or a whole phrase. -/
def Progress.Follows : Progress → List Symbol → Prop
  | .reading d, ss => ∃ p ps, d = OpenPhrase.draft p ps ∧ p.Closed ∧ (∀ q ∈ ps, q.Closed) ∧
      enclosingYield ps ++ p.yield = ss
  | .closed root, ss => ∃ g : GroupPhrase, g.Derives ss ∧ root = .parallel g.branches

/-- Nothing has been read at the start. -/
theorem Progress.follows_start : (Progress.reading .start).Follows [] :=
  ⟨.empty, [], rfl, ⟨by simp [OpenPhrase.empty], by simp [OpenPhrase.empty],
    by simp [OpenPhrase.empty]⟩, by simp, rfl⟩

/-- A closed group is an element of the group around it, or the whole phrase. -/
theorem follows_leave {ps : List OpenPhrase} {g : GroupPhrase} (hps : ∀ p ∈ ps, p.Closed)
    (hg : ∀ r, g.FollowedBy r) :
    (Draft.leave (.parallel g.branches) (ps.map OpenPhrase.group)).Follows
      (enclosingYield ps ++ g.yield) := by
  cases ps with
  | nil => exact ⟨g, ⟨rfl, hg []⟩, rfl⟩
  | cons p ps =>
    have hp : p.Closed := hps p List.mem_cons_self
    refine ⟨p.add (.group g), ps, ?_, hp.add hg, fun q hq => hps q (List.mem_cons_of_mem _ hq), ?_⟩
    · exact congrArg (fun c => (⟨c, _, false⟩ : Draft)) (p.group_add (.group g)).symm
    · have yield : (p.add (.group g)).yield = p.yield ++ .colon :: g.yield :=
        OpenPhrase.yield_add hp (.group g)
      simp [enclosingYield_cons, yield]

/-- **One symbol further**: a draft that takes in a symbol still goes along with
what has been read. -/
theorem Progress.Follows.next {d : Draft} {s : Symbol} {ss : List Symbol} {progress : Progress}
    (h : (Progress.reading d).Follows ss) (hs : d.next? s = some progress) :
    ReadableValues [s] ∧ progress.Follows (ss ++ [s]) := by
  obtain ⟨p, ps, rfl, hp, hps, rfl⟩ := h
  have noValue (hs : ∀ t, s ≠ .value t) : ReadableValues [s] := by
    intro t ht
    exact absurd (List.mem_singleton.mp ht).symm (hs t)
  cases s with
  | value t =>
    obtain ⟨ht, rfl⟩ := Draft.next?_value.mp hs
    refine ⟨fun t' ht' => ?_, p.add (.value t), ps, ?_, hp.add fun _ => trivial, hps, ?_⟩
    · cases List.mem_singleton.mp ht'
      exact ht
    · exact congrArg (fun c => (⟨c, _, false⟩ : Draft)) (p.group_add (.value t)).symm
    · rw [OpenPhrase.yield_add hp]
      simp [ElementPhrase.yield]
  | colon =>
    cases hs
    refine ⟨noValue (by simp), .empty, p :: ps, rfl, ?_, ?_, ?_⟩
    · exact ⟨by simp [OpenPhrase.empty], by simp [OpenPhrase.empty], by simp [OpenPhrase.empty]⟩
    · intro q hq
      rcases List.mem_cons.mp hq with rfl | hq
      · exact hp
      · exact hps q hq
    · simp [enclosingYield_cons, OpenPhrase.yield, OpenPhrase.empty, finishedYield, Symbol.optional]
  | dot =>
    obtain ⟨hd, hseries, rfl⟩ := Draft.next?_dot.mp hs
    have some_series : p.series ≠ none := by
      intro h
      simp [OpenPhrase.draft, OpenPhrase.group, h] at hseries
    refine ⟨noValue (by simp), { p with dotted := true }, ps, rfl,
      ⟨hp.finished, hp.series, fun _ => some_series⟩, hps, ?_⟩
    have : p.dotted = false := hd
    simp [OpenPhrase.yield, this, Symbol.optional]
  | comma =>
    -- the chain being read becomes the latest finished one
    obtain ⟨hd, c, hc, hprogress⟩ := (Draft.next?_separator (.inl rfl)).mp hs
    obtain ⟨s, hseries, rfl⟩ := OpenPhrase.chain?_group.mp hc
    cases hprogress
    refine ⟨noValue (by simp), ⟨s :: p.finished, none, false⟩, ps, ?_, ?_, hps, ?_⟩
    · simp [OpenPhrase.draft, OpenPhrase.group]
    · refine ⟨fun s' hs' => ?_, by simp, by simp⟩
      rcases List.mem_cons.mp hs' with rfl | hs'
      · exact hp.series s' hseries
      · exact hp.finished s' hs'
    · have : p.dotted = false := hd
      simp [OpenPhrase.yield, this, hseries, finishedYield_cons, Symbol.optional]
  | semicolon =>
    -- the innermost group is whole, and an element of the group around it
    obtain ⟨hd, c, hc, hprogress⟩ := (Draft.next?_separator (.inr rfl)).mp hs
    obtain ⟨s, hseries, rfl⟩ := OpenPhrase.chain?_group.mp hc
    cases hprogress
    have branches : (s.chain :: (p.draft ps).current.branches).reverse = (p.close s true).branches :=
      (p.branches_close s true).symm
    have follow (r : List Symbol) : (p.close s true).FollowedBy r :=
      .preceded hp.finished ⟨hp.series s hseries _, fun h => absurd h (by simp)⟩
    have yield : (p.close s true).yield = p.yield ++ [.semicolon] :=
      OpenPhrase.yield_close hseries hd true
    refine ⟨noValue (by simp), ?_⟩
    rw [branches, List.append_assoc, ← yield]
    exact follows_leave hps follow
  | finish => exact absurd hs (by simp [Draft.next?_finish])

/-- **Soundness**: whatever is read to the end completes what has been read to
a phrase, and the network read is the one that the phrase stands for. -/
theorem Progress.Follows.exists_derivation {ss rest : List Symbol} {progress : Progress}
    {root : Element Float} (h : progress.Follows ss) (hread : progress.read? rest = some root) :
    ReadableValues rest ∧ ∃ g : GroupPhrase, g.Derives (ss ++ rest) ∧ root = .parallel g.branches := by
  induction rest generalizing progress ss with
  | nil =>
    refine ⟨fun t ht => absurd ht List.not_mem_nil, ?_⟩
    cases progress with
    | closed root' =>
      simp only [read?, if_true, Option.some.injEq] at hread
      subst hread
      obtain ⟨g, hg, hroot⟩ := h
      exact ⟨g, by simpa using hg, hroot⟩
    | reading d =>
      obtain ⟨p, ps, rfl, hp, hps, rfl⟩ := h
      obtain ⟨hd, c, hc, hleave⟩ := Draft.read?_nil.mp hread
      obtain ⟨s, hs, rfl⟩ := OpenPhrase.chain?_group.mp hc
      have follow : (p.close s false).FollowedBy [] :=
        .preceded hp.finished ⟨hp.series s hs _, fun _ => rfl⟩
      have yield : (p.close s false).yield = p.yield ++ [] := OpenPhrase.yield_close hs hd false
      have hleave : (Draft.leave (.parallel (p.close s false).branches)
          (ps.map OpenPhrase.group)).read? [] = some root := by
        rw [p.branches_close]
        exact hleave
      have := exists_derivation_of_leave hps follow hleave
      rwa [yield, ← List.append_assoc] at this
  | cons s rest ih =>
    cases progress with
    | closed root' => simp [read?] at hread
    | reading d =>
      obtain ⟨progress, hs, hread⟩ := Draft.exists_next?_of_read? hread
      obtain ⟨hvalue, hfollows⟩ := h.next hs
      obtain ⟨hrest, g, hg, hroot⟩ := ih hfollows hread
      refine ⟨fun t ht => ?_, g, by simpa using hg, hroot⟩
      rcases List.mem_cons.mp ht with rfl | ht
      · exact hvalue t (by simp)
      · exact hrest t ht

/-! ## The parser and the grammar -/

/-- The symbols of a topology text. -/
def topologySymbols (text : String) (position : Nat) : List Symbol :=
  (Lexer.ofString text position).tokens.map Token.symbol

/-- **Parsing accepts exactly the grammar**: a topology is parsed when its
symbols derive and its values are resistances. The derivation is unique, and
the result is its network: a group without anything after it, with a branch for
every chain between commas, the elements in order, and the resistor of its
value for every value. -/
theorem parseTopology_iff_derives (text : String) (position : Nat) :
    ((∃ c, parseTopology text position = .ok c) ↔
      (∃ g : GroupPhrase, g.Derives (topologySymbols text position)) ∧
        ∀ t, .value t ∈ topologySymbols text position → IsResistance t) ∧
    (∀ g g' : GroupPhrase, g.Derives (topologySymbols text position) →
      g'.Derives (topologySymbols text position) → g = g') ∧
    (∀ (c : Chain Float) (g : GroupPhrase), parseTopology text position = .ok c →
      g.Derives (topologySymbols text position) → c = g.network) := by
  have accepted (c : Chain Float) : parseTopology text position = .ok c ↔
      ∃ root, Draft.start.read? (topologySymbols text position) = some root ∧ c = .last root :=
    parse_eq_ok
  have begin : (Progress.reading .start).Follows [] :=
    ⟨.empty, [], rfl, ⟨by simp [OpenPhrase.empty], by simp [OpenPhrase.empty],
      by simp [OpenPhrase.empty]⟩, by simp, rfl⟩
  refine ⟨⟨fun h => ?_, fun h => ?_⟩, fun g g' h h' => h.unique h', fun c g hc hg => ?_⟩
  · obtain ⟨c, hc⟩ := h
    obtain ⟨root, hroot, -⟩ := (accepted c).mp hc
    obtain ⟨hvalues, g, hg, -⟩ := begin.exists_derivation hroot
    exact ⟨⟨g, hg⟩, hvalues⟩
  · obtain ⟨⟨g, hg⟩, hvalues⟩ := h
    exact ⟨g.network, (accepted _).mpr ⟨_, hg.read? hvalues, rfl⟩⟩
  · obtain ⟨root, hroot, rfl⟩ := (accepted c).mp hc
    obtain ⟨-, g', hg', rfl⟩ := begin.exists_derivation hroot
    rw [hg.unique hg', GroupPhrase.network]

end SeriesParallel
