import Mathlib.Data.List.TakeWhile
import SeriesParallel.Topology.Draft

/-!
# Topology — cutting a text at a token

Tokens stand one after another in a text, each behind some white space, and the
end of the text stands behind them all. What is in front of a token can be read
on its own: a text that is cut there has the tokens up to the cut, each where
it was. Only a value looks at what comes next, to see that it has ended.
-/

namespace SeriesParallel

/-! ## Bytes -/

theorem byteLength_cons (c : Char) (cs : List Char) :
    byteLength (c :: cs) = c.utf8Size + byteLength cs := by
  have shift (n : Nat) : cs.foldl (fun n c => n + c.utf8Size) n = n + byteLength cs := by
    unfold byteLength
    induction cs generalizing n with
    | nil => rfl
    | cons d cs ih =>
      rw [List.foldl_cons, List.foldl_cons, ih (n + d.utf8Size), ih (0 + d.utf8Size)]
      omega
  show cs.foldl _ (0 + c.utf8Size) = _
  rw [shift, Nat.zero_add]

theorem byteLength_append (cs ds : List Char) :
    byteLength (cs ++ ds) = byteLength cs + byteLength ds := by
  induction cs with
  | nil => simp [byteLength]
  | cons c cs ih => rw [List.cons_append, byteLength_cons, byteLength_cons, ih, Nat.add_assoc]

/-- Bytes are counted as those of a string are. -/
theorem byteLength_eq (cs : List Char) : byteLength cs = (String.ofList cs).utf8ByteSize := by
  induction cs with
  | nil => rfl
  | cons c cs ih =>
    rw [byteLength_cons, ih, String.ofList_cons, String.utf8ByteSize_append,
      String.utf8ByteSize_singleton]

theorem byteLength_pos {cs : List Char} (h : cs ≠ []) : 0 < byteLength cs := by
  cases cs with
  | nil => exact absurd rfl h
  | cons c cs =>
    rw [byteLength_cons]
    have := c.utf8Size_pos
    omega

/-! ## Separators and values -/

/-- Whether a symbol is a value. -/
def Symbol.isValue : Symbol → Bool
  | value _ => true
  | _ => false

theorem Symbol.ofSeparator?_eq_some {c : Char} {s : Symbol} (h : ofSeparator? c = some s) :
    s.isValue = false ∧ s ≠ .finish := by
  unfold ofSeparator? at h
  split at h <;> cases h <;> exact ⟨rfl, Symbol.noConfusion⟩

theorem isBlank_of_ofSeparator? {c : Char} {s : Symbol} (h : Symbol.ofSeparator? c = some s) :
    Text.isBlank c = false := by
  unfold Symbol.ofSeparator? at h
  split at h
  case h_5 => cases h
  all_goals decide

/-- A text that a value can stand in front of: it is at its end, or goes on
with a separator. -/
def EndsValue : List Char → Prop
  | [] => True
  | c :: _ => isSeparator c

namespace EndsValue

variable {cs ds : List Char}

theorem of_initial (h : EndsValue ds) (hcs : cs <+: ds) : EndsValue cs := by
  obtain ⟨es, rfl⟩ := hcs
  cases cs with
  | nil => trivial
  | cons c cs => exact h

theorem append (h : EndsValue cs) (hcs : cs ≠ []) (ds : List Char) : EndsValue (cs ++ ds) := by
  cases cs with
  | nil => exact absurd rfl hcs
  | cons c cs => exact h

theorem dropWhile (cs : List Char) : EndsValue (cs.dropWhile (!isSeparator ·)) := by
  have first := List.head?_dropWhile_not (!isSeparator ·) cs
  cases hds : cs.dropWhile (!isSeparator ·) with
  | nil => trivial
  | cons d ds =>
    rw [hds] at first
    simpa [EndsValue] using first

/-- A value takes all characters up to the next separator, and no more. -/
theorem takeWhile_append (h : EndsValue ds) (hcs : ∀ c ∈ cs, !isSeparator c) :
    (cs ++ ds).takeWhile (!isSeparator ·) = cs ∧ (cs ++ ds).dropWhile (!isSeparator ·) = ds := by
  rw [List.takeWhile_append_of_pos hcs, List.dropWhile_append_of_pos hcs]
  cases ds with
  | nil => simp
  | cons d ds =>
    have hd : isSeparator d = true := h
    simp [hd]

end EndsValue

/-- A word: characters of one value, of which the first is not white space. -/
structure IsWord (cs : List Char) : Prop where
  inside : ∀ c ∈ cs, !isSeparator c
  first : ∃ c ∈ cs.head?, Text.isBlank c = false

/-- What a symbol is written with: a separator with its character, a value with a
word, whose white space at the end is not part of the value. -/
inductive Spells : List Char → Symbol → Prop
  | separator {c : Char} {s : Symbol} (hc : Symbol.ofSeparator? c = some s) : Spells [c] s
  | word {vs : List Char} (hvs : IsWord vs) :
      Spells vs (.value (String.ofList (Text.trimEnd vs)))

namespace Spells

variable {ts : List Char} {s : Symbol}

theorem symbol_ne (h : Spells ts s) : s ≠ .finish := by
  cases h with
  | separator hc => exact (Symbol.ofSeparator?_eq_some hc).2
  | word hvs => exact Symbol.noConfusion

theorem ne_nil (h : Spells ts s) : ts ≠ [] := by
  cases h with
  | separator hc => exact List.cons_ne_nil _ _
  | word hvs =>
    rintro rfl
    obtain ⟨c, hc, -⟩ := hvs.first
    cases hc

end Spells

/-! ## One token -/

namespace Lexer

/-- White space in front of a text is skipped. -/
theorem skipWhile_blanks {bs cs : List Char} (hbs : ∀ c ∈ bs, Text.isBlank c)
    (hcs : ∀ c ∈ cs.head?, Text.isBlank c = false) (position : Nat) :
    skipWhile Text.isBlank ⟨bs ++ cs, position⟩ = ⟨cs, position + byteLength bs⟩ := by
  have stop : cs.takeWhile Text.isBlank = [] ∧ cs.dropWhile Text.isBlank = cs := by
    cases cs with
    | nil => exact ⟨rfl, rfl⟩
    | cons c cs =>
      have hc : Text.isBlank c = false := hcs c rfl
      simp [hc]
  simp only [skipWhile, List.takeWhile_append_of_pos hbs, List.dropWhile_append_of_pos hbs, stop,
    List.append_nil]

/-- After white space comes the end of the text. -/
theorem next_blanks {bs : List Char} (hbs : ∀ c ∈ bs, Text.isBlank c) (position : Nat) :
    next ⟨bs, position⟩ =
      (⟨.finish, position + byteLength bs⟩, ⟨[], position + byteLength bs⟩) := by
  have skip : skipWhile Text.isBlank ⟨bs ++ [], position⟩ = ⟨[], position + byteLength bs⟩ :=
    skipWhile_blanks hbs (by simp) position
  rw [List.append_nil] at skip
  rw [next, skip]

/-- After white space comes a separator. -/
theorem next_separator {bs : List Char} {c : Char} {s : Symbol} (hbs : ∀ c ∈ bs, Text.isBlank c)
    (hc : Symbol.ofSeparator? c = some s) (cs : List Char) (position : Nat) :
    next ⟨bs ++ c :: cs, position⟩ =
      (⟨s, position + byteLength bs⟩, ⟨cs, position + byteLength bs + c.utf8Size⟩) := by
  rw [next, skipWhile_blanks hbs (by simpa using isBlank_of_ofSeparator? hc)]
  simp only [hc]

/-- After white space comes a value. -/
theorem next_word {bs vs cs : List Char} (hbs : ∀ c ∈ bs, Text.isBlank c) (hvs : IsWord vs)
    (hcs : EndsValue cs) (position : Nat) :
    next ⟨bs ++ (vs ++ cs), position⟩ =
      (⟨.value (String.ofList (Text.trimEnd vs)), position + byteLength bs⟩,
        ⟨cs, position + byteLength bs + byteLength vs⟩) := by
  obtain ⟨c, hc, hblank⟩ := hvs.first
  obtain ⟨taken, dropped⟩ := hcs.takeWhile_append hvs.inside
  cases vs with
  | nil => simp at hc
  | cons v vs =>
    cases hc
    have hsep : Symbol.ofSeparator? c = none := by
      simpa [isSeparator] using hvs.inside c List.mem_cons_self
    rw [List.cons_append] at taken dropped
    rw [next, skipWhile_blanks hbs (by simpa using hblank)]
    simp only [List.cons_append, hsep, skipWhile, taken, dropped]

/-- How the next token stands in a text: behind white space `bs`, written with
the characters `ts`. -/
structure Reads (l : Lexer) (bs ts : List Char) : Prop where
  blank : ∀ c ∈ bs, Text.isBlank c
  spells : Spells ts l.next.1.symbol
  rest_eq : l.rest = bs ++ (ts ++ l.next.2.rest)
  token_position : l.next.1.position = l.position + byteLength bs
  next_position : l.next.2.position = l.next.1.position + byteLength ts
  /-- A value stands in front of a separator, or at the end of the text. -/
  endsValue : l.next.1.symbol.isValue → EndsValue l.next.2.rest
  /-- Any other text that the token can stand in front of is left as it is. -/
  next_eq : ∀ cs, (l.next.1.symbol.isValue → EndsValue cs) →
    next ⟨bs ++ (ts ++ cs), l.position⟩ = (l.next.1, ⟨cs, l.next.2.position⟩)

/-- A token that is read in front of anything it can stand in front of. -/
theorem Reads.of_next {bs ts rest : List Char} {position : Nat} {s : Symbol}
    (hbs : ∀ c ∈ bs, Text.isBlank c) (hts : Spells ts s) (hrest : s.isValue → EndsValue rest)
    (read : ∀ cs, (s.isValue → EndsValue cs) → next ⟨bs ++ (ts ++ cs), position⟩ =
      (⟨s, position + byteLength bs⟩, ⟨cs, position + byteLength bs + byteLength ts⟩)) :
    Reads ⟨bs ++ (ts ++ rest), position⟩ bs ts := by
  have first := read rest hrest
  constructor
  · exact hbs
  · rw [first]
    exact hts
  · rw [first]
  · rw [first]
  · rw [first]
  · rw [first]
    exact hrest
  · intro cs hcs
    rw [first] at hcs ⊢
    exact read cs hcs

/-- **A text is white space, or a token can be read from it.** -/
theorem blank_or_reads (l : Lexer) :
    (∀ c ∈ l.rest, Text.isBlank c) ∨ ∃ bs ts, l.Reads bs ts := by
  obtain ⟨rest, position⟩ := l
  let bs := rest.takeWhile Text.isBlank
  have hbs : ∀ c ∈ bs, Text.isBlank c := fun c hc => List.mem_takeWhile_imp hc
  have hrest : rest = bs ++ rest.dropWhile Text.isBlank := List.takeWhile_append_dropWhile.symm
  have first := List.head?_dropWhile_not Text.isBlank rest
  cases hdrop : rest.dropWhile Text.isBlank with
  | nil =>
    rw [hdrop, List.append_nil] at hrest
    rw [hrest]
    exact .inl hbs
  | cons c cs =>
    rw [hdrop] at hrest first
    have hblank : Text.isBlank c = false := by simpa using first
    refine .inr ?_
    cases hsep : Symbol.ofSeparator? c with
    | some s =>
      obtain ⟨noValue, -⟩ := Symbol.ofSeparator?_eq_some hsep
      refine ⟨bs, [c], ?_⟩
      rw [hrest]
      refine .of_next hbs (.separator hsep) (by simp [noValue]) fun ds _ => ?_
      have size : byteLength [c] = c.utf8Size := by simp [byteLength]
      rw [size]
      exact next_separator hbs hsep ds position
    | none =>
      let vs := (c :: cs).takeWhile (!isSeparator ·)
      have inside : isSeparator c = false := by simp [isSeparator, hsep]
      have hvs : vs = c :: cs.takeWhile (!isSeparator ·) := by simp [vs, inside]
      have word : IsWord vs := by
        refine ⟨fun d hd => List.mem_takeWhile_imp (p := (!isSeparator ·)) hd, c, ?_, hblank⟩
        rw [hvs]
        rfl
      have split : c :: cs = vs ++ (c :: cs).dropWhile (!isSeparator ·) :=
        List.takeWhile_append_dropWhile.symm
      refine ⟨bs, vs, ?_⟩
      rw [hrest, split]
      exact .of_next hbs (.word word) (fun _ => .dropWhile _) fun ds hds =>
        next_word hbs word (hds rfl) position

/-! ## All tokens -/

theorem tokens_of_blank {l : Lexer} (h : ∀ c ∈ l.rest, Text.isBlank c) : l.tokens = [] := by
  have finish : l.next.1.symbol = .finish := by rw [next_blanks h]
  rw [tokens]
  simp [finish]

theorem tokens_of_symbol_ne {l : Lexer} (more : l.next.1.symbol ≠ .finish) :
    l.tokens = l.next.1 :: l.next.2.tokens := by
  rw [tokens]
  simp [more]

theorem Reads.symbol_ne {l : Lexer} {bs ts : List Char} (h : l.Reads bs ts) :
    l.next.1.symbol ≠ .finish := h.spells.symbol_ne

theorem Reads.tokens_eq {l : Lexer} {bs ts : List Char} (h : l.Reads bs ts) :
    l.tokens = l.next.1 :: l.next.2.tokens := tokens_of_symbol_ne h.symbol_ne

theorem Reads.finish_eq {l : Lexer} {bs ts : List Char} (h : l.Reads bs ts) :
    l.next.2.finish = l.finish := by
  have bytes : byteLength l.rest = byteLength bs + (byteLength ts + byteLength l.next.2.rest) := by
    rw [← byteLength_append, ← byteLength_append, ← h.rest_eq]
  rw [finish, finish, h.next_position, h.token_position, bytes]
  omega

/-- Induction over a text, token by token. -/
@[elab_as_elim]
theorem inductionOn {motive : Lexer → Prop} (l : Lexer)
    (blank : ∀ l, (∀ c ∈ l.rest, Text.isBlank c) → motive l)
    (token : ∀ l bs ts, l.Reads bs ts → motive l.next.2 → motive l) : motive l :=
  match l.blank_or_reads with
  | .inl h => blank l h
  | .inr ⟨bs, ts, h⟩ => token l bs ts h (inductionOn l.next.2 blank token)
termination_by l.rest.length
decreasing_by exact length_next_lt l h.symbol_ne

/-- What holds of every token that is read holds of all tokens of a text. -/
theorem forall_mem_tokens {p : Token → Prop} (read : ∀ l bs ts, Reads l bs ts → p l.next.1)
    (l : Lexer) : ∀ t ∈ l.tokens, p t := by
  induction l using inductionOn with
  | blank l h =>
    rw [tokens_of_blank h]
    exact List.forall_mem_nil p
  | token l bs ts h ih =>
    rw [h.tokens_eq]
    exact List.forall_mem_cons.mpr ⟨read l bs ts h, ih⟩

theorem symbol_ne_finish {l : Lexer} {t : Token} (ht : t ∈ l.tokens) : t.symbol ≠ .finish := by
  have all : ∀ t ∈ l.tokens, t.symbol ≠ .finish := l.forall_mem_tokens fun _ _ _ h => h.symbol_ne
  exact all t ht

end Lexer

/-- The tokens of a stream, with the end of the text as the last one. -/
def TokenStream.sequence (s : TokenStream) : List Token := s.tokens ++ [⟨.finish, s.finish⟩]

namespace Lexer

/-- The tokens of a text, with its end as the last one. -/
def sequence (l : Lexer) : List Token := (TokenStream.mk l.tokens l.finish).sequence

theorem sequence_of_blank {l : Lexer} (h : ∀ c ∈ l.rest, Text.isBlank c) :
    l.sequence = [⟨.finish, l.position + byteLength l.rest⟩] := by
  rw [sequence, TokenStream.sequence, tokens_of_blank h]
  rfl

theorem Reads.sequence_eq {l : Lexer} {bs ts : List Char} (h : l.Reads bs ts) :
    l.sequence = l.next.1 :: l.next.2.sequence := by
  rw [sequence, sequence, TokenStream.sequence, TokenStream.sequence, h.tokens_eq, h.finish_eq]
  rfl

/-- **Every token stands behind the one before it**, and the end of the text
behind them all. -/
theorem pairwise_sequence (l : Lexer) :
    (∀ t ∈ l.sequence, l.position ≤ t.position) ∧
      l.sequence.Pairwise fun t u => t.position < u.position := by
  induction l using inductionOn with
  | blank l h =>
    rw [sequence_of_blank h]
    simp
  | token l bs ts h ih =>
    obtain ⟨from_next, apart⟩ := ih
    have written := byteLength_pos h.spells.ne_nil
    have token_position := h.token_position
    have next_position := h.next_position
    rw [h.sequence_eq]
    refine ⟨fun t ht => ?_, .cons (fun t ht => ?_) apart⟩
    · rcases List.mem_cons.mp ht with rfl | ht
      · omega
      · have := from_next t ht
        omega
    · have := from_next t ht
      omega

/-! ## Cutting -/

/-- A word behind white space is the only token. -/
theorem tokens_word {bs vs : List Char} (hbs : ∀ c ∈ bs, Text.isBlank c) (hvs : IsWord vs)
    (position : Nat) : (Lexer.mk (bs ++ vs) position).tokens =
      [⟨.value (String.ofList (Text.trimEnd vs)), position + byteLength bs⟩] := by
  have read := @next_word bs vs [] hbs hvs trivial position
  rw [List.append_nil] at read
  rw [tokens, read]
  simp only [reduceCtorEq, dite_false]
  rw [tokens_of_blank (by simp)]

/-- A token is read in front of any characters that do not go on with it. -/
theorem Reads.tokens_append {l : Lexer} {bs ts : List Char} (h : l.Reads bs ts) {ds : List Char}
    (hds : l.next.1.symbol.isValue → EndsValue ds) :
    (Lexer.mk (bs ++ (ts ++ ds)) l.position).tokens =
      l.next.1 :: (Lexer.mk ds l.next.2.position).tokens := by
  rw [tokens, h.next_eq ds hds]
  simp [h.symbol_ne]

/-- **A text can be cut in front of a token.** What is in front of the token
has the tokens before it, and may be continued there with a word, if that word
does not run into a value. -/
theorem exists_cut {l : Lexer} {before after : List Token} {t : Token}
    (h : l.sequence = before ++ t :: after) :
    ∃ cs, cs <+: l.rest ∧ (Lexer.mk cs l.position).tokens = before ∧
      ∀ vs, IsWord vs → (∀ u ∈ before.getLast?, u.symbol.isValue = false) →
        (Lexer.mk (cs ++ vs) l.position).tokens =
          before ++ [⟨.value (String.ofList (Text.trimEnd vs)), t.position⟩] := by
  induction l using inductionOn generalizing before with
  | blank l hblank =>
    rw [sequence_of_blank hblank] at h
    cases before with
    | cons u before => simp at h
    | nil =>
      obtain ⟨rfl, -⟩ := List.cons.inj h
      exact ⟨l.rest, List.prefix_rfl, tokens_of_blank hblank, fun vs hvs _ =>
        tokens_word hblank hvs l.position⟩
  | token l bs ts hreads ih =>
    rw [hreads.sequence_eq] at h
    cases before with
    | nil =>
      obtain ⟨rfl, -⟩ := List.cons.inj h
      refine ⟨bs, ⟨_, hreads.rest_eq.symm⟩, tokens_of_blank hreads.blank, fun vs hvs _ => ?_⟩
      rw [hreads.token_position]
      exact tokens_word hreads.blank hvs l.position
    | cons u before =>
      obtain ⟨rfl, hrest⟩ := List.cons.inj h
      obtain ⟨cs, hcs, read, continued⟩ := ih hrest
      -- the first token is read in front of what the cut leaves of the rest
      have ends : l.next.1.symbol.isValue → EndsValue cs :=
        fun hvalue => (hreads.endsValue hvalue).of_initial hcs
      refine ⟨bs ++ (ts ++ cs), ?_, by rw [hreads.tokens_append ends, read], fun vs hvs hlast => ?_⟩
      · rw [hreads.rest_eq]
        exact (List.prefix_append_right_inj bs).mpr ((List.prefix_append_right_inj ts).mpr hcs)
      · have ends' : l.next.1.symbol.isValue → EndsValue (cs ++ vs) := by
          intro hvalue
          refine (ends hvalue).append (fun hnil => ?_) vs
          -- the word would run into the first token
          rw [hnil, tokens_of_blank (by simp)] at read
          subst read
          exact absurd ((hlast _ rfl).symm.trans hvalue) Bool.false_ne_true
        have last : ∀ u ∈ before.getLast?, u.symbol.isValue = false := by
          intro u hu
          apply hlast u
          rw [List.getLast?_cons]
          simp_all
        rw [List.append_assoc, List.append_assoc, hreads.tokens_append ends',
          continued vs hvs last]
        rfl

end Lexer

end SeriesParallel
