import SeriesParallel.Proofs.Topology.Lexing

/-!
# Topology — the symbols of a text

What is read from a text does not depend on where its tokens are, but on their
symbols only. Separators cut a text into pieces, and the symbols are those of
the pieces with the separators between them: a piece is blank, or it is one
value with white space around it. So white space beside a separator, or at an
end of the text, does not show in the symbols.
-/

namespace SeriesParallel

/-! ## White space at the ends -/

namespace Text

variable {bs cs : List Char}

theorem trim_blanks_append (hbs : ∀ b ∈ bs, isBlank b) (cs : List Char) :
    trim (bs ++ cs) = trim cs := by
  rw [trim, List.dropWhile_append_of_pos hbs, trim]

theorem trimEnd_append_blanks (cs : List Char) (hbs : ∀ b ∈ bs, isBlank b) :
    trimEnd (cs ++ bs) = trimEnd cs := by
  have inside : ∀ b ∈ bs.reverse, isBlank b := fun b hb => hbs b (List.mem_reverse.mp hb)
  rw [trimEnd, dropEnd, List.reverse_append, List.dropWhile_append_of_pos inside, trimEnd, dropEnd]

/-- White space and nothing else. -/
theorem trim_eq_nil_of_blank (hcs : ∀ c ∈ cs, isBlank c) : trim cs = [] := by
  have blank := trim_blanks_append hcs []
  rw [List.append_nil] at blank
  exact blank

/-- A text is white space, or there is something behind its first white space. -/
theorem blank_or_eq_append (cs : List Char) : (∀ c ∈ cs, isBlank c) ∨
    ∃ bs c ds, cs = bs ++ c :: ds ∧ (∀ b ∈ bs, isBlank b) ∧ isBlank c = false := by
  have halves : cs.takeWhile isBlank ++ cs.dropWhile isBlank = cs :=
    List.takeWhile_append_dropWhile
  have front : ∀ b ∈ cs.takeWhile isBlank, isBlank b := fun b hb => List.mem_takeWhile_imp hb
  have first := List.head?_dropWhile_not isBlank cs
  cases hdrop : cs.dropWhile isBlank with
  | nil =>
    rw [hdrop, List.append_nil] at halves
    rw [halves] at front
    exact .inl front
  | cons c ds =>
    rw [hdrop] at halves first
    exact .inr ⟨_, c, ds, halves.symm, front, by simpa using first⟩

theorem trim_append_blanks (cs : List Char) (hbs : ∀ b ∈ bs, isBlank b) :
    trim (cs ++ bs) = trim cs := by
  rcases blank_or_eq_append cs with hcs | ⟨front, c, ds, rfl, hfront, hc⟩
  · rw [trim_blanks_append hcs, trim_eq_nil_of_blank hbs, trim_eq_nil_of_blank hcs]
  · rw [List.append_assoc, trim_blanks_append hfront, trim_blanks_append hfront]
    simp only [trim, List.cons_append, List.dropWhile_cons, hc, Bool.false_eq_true, if_false]
    rw [← List.cons_append, trimEnd_append_blanks _ hbs]

end Text

/-! ## Symbols without positions -/

/-- The symbols of the tokens of a text. -/
def textSymbols (cs : List Char) : List Symbol := (Lexer.mk cs 0).tokens.map Token.symbol

namespace Lexer

/-- The position of a text moves its tokens, and does nothing else to them. -/
theorem next_eq_of_rest_eq {l l' : Lexer} (h : l.rest = l'.rest) :
    l.next.1.symbol = l'.next.1.symbol ∧ l.next.2.rest = l'.next.2.rest := by
  obtain ⟨rest, position⟩ := l
  obtain ⟨rest', position'⟩ := l'
  cases h
  simp only [next, skipWhile]
  split
  · exact ⟨rfl, rfl⟩
  · split <;> exact ⟨rfl, rfl⟩

theorem map_symbol_tokens_eq {l l' : Lexer} (h : l.rest = l'.rest) :
    l.tokens.map Token.symbol = l'.tokens.map Token.symbol := by
  induction l using inductionOn generalizing l' with
  | blank l hblank =>
    have hblank' : ∀ c ∈ l'.rest, Text.isBlank c := h ▸ hblank
    rw [tokens_of_blank hblank, tokens_of_blank hblank']
  | token l bs ts hreads ih =>
    obtain ⟨hsymbol, hrest⟩ := next_eq_of_rest_eq h
    have more : l'.next.1.symbol ≠ .finish := hsymbol ▸ hreads.symbol_ne
    rw [hreads.tokens_eq, tokens_of_symbol_ne more, List.map_cons, List.map_cons, hsymbol, ih hrest]

theorem map_symbol_tokens (l : Lexer) : l.tokens.map Token.symbol = textSymbols l.rest :=
  map_symbol_tokens_eq rfl

end Lexer

/-! ## Pieces between separators -/

/-- Every separator has a symbol of its own. -/
theorem Symbol.ofSeparator?_inj {c c' : Char} {s : Symbol} (h : ofSeparator? c = some s)
    (h' : ofSeparator? c' = some s) : c = c' := by
  have text_eq {c : Char} (h : ofSeparator? c = some s) : s.text.toList = [c] := by
    unfold ofSeparator? at h
    split at h <;> cases h <;> rfl
  have same : [c] = [c'] := (text_eq h).symm.trans (text_eq h')
  exact List.singleton_inj.mp same

/-- A text without separators. -/
def IsPiece (cs : List Char) : Prop := ∀ c ∈ cs, isSeparator c = false

/-- The symbols of a piece: its value, if it is not blank. -/
def pieceSymbols (cs : List Char) : List Symbol :=
  if cs.all Text.isBlank then [] else [.value (String.ofList (Text.trim cs))]

variable {bs cs ds : List Char} {c : Char} {s : Symbol}

theorem IsPiece.append (hcs : IsPiece cs) (hds : IsPiece ds) : IsPiece (cs ++ ds) :=
  List.forall_mem_append.mpr ⟨hcs, hds⟩

/-- White space is a piece of its own. -/
theorem isPiece_of_blank (hbs : ∀ b ∈ bs, Text.isBlank b) : IsPiece bs := by
  intro b hb
  by_cases hsep : Symbol.ofSeparator? b = none
  · simp [isSeparator, hsep]
  · obtain ⟨s, hs⟩ := Option.ne_none_iff_exists'.mp hsep
    exact absurd (hbs b hb) (by simp [isBlank_of_ofSeparator? hs])

theorem pieceSymbols_of_blank (hbs : ∀ b ∈ bs, Text.isBlank b) : pieceSymbols bs = [] := by
  rw [pieceSymbols, if_pos (List.all_eq_true.mpr hbs)]

theorem pieceSymbols_blanks_append (hbs : ∀ b ∈ bs, Text.isBlank b) (cs : List Char) :
    pieceSymbols (bs ++ cs) = pieceSymbols cs := by
  have front : bs.all Text.isBlank = true := List.all_eq_true.mpr hbs
  rw [pieceSymbols, List.all_append, front, Bool.true_and, Text.trim_blanks_append hbs,
    pieceSymbols]

theorem pieceSymbols_append_blanks (cs : List Char) (hbs : ∀ b ∈ bs, Text.isBlank b) :
    pieceSymbols (cs ++ bs) = pieceSymbols cs := by
  have back : bs.all Text.isBlank = true := List.all_eq_true.mpr hbs
  rw [pieceSymbols, List.all_append, back, Bool.and_true, Text.trim_append_blanks cs hbs,
    pieceSymbols]

/-- A piece has a value, or it is white space. -/
theorem pieceSymbols_eq (cs : List Char) :
    pieceSymbols cs = [] ∧ (∀ c ∈ cs, Text.isBlank c) ∨ ∃ t, pieceSymbols cs = [.value t] := by
  unfold pieceSymbols
  split
  next hblank => exact .inl ⟨rfl, List.all_eq_true.mp hblank⟩
  next => exact .inr ⟨_, rfl⟩

/-! ## The symbols of a text -/

/-- White space has no symbols. -/
theorem textSymbols_of_blank (hbs : ∀ b ∈ bs, Text.isBlank b) : textSymbols bs = [] := by
  rw [textSymbols, Lexer.tokens_of_blank hbs, List.map_nil]

/-- White space at the start is skipped. -/
theorem textSymbols_blanks_append (hbs : ∀ b ∈ bs, Text.isBlank b) (cs : List Char) :
    textSymbols (bs ++ cs) = textSymbols cs := by
  have skip : (Lexer.mk (bs ++ cs) 0).skipWhile Text.isBlank
      = (Lexer.mk cs (byteLength bs)).skipWhile Text.isBlank := by
    simp only [Lexer.skipWhile, List.dropWhile_append_of_pos hbs, List.takeWhile_append_of_pos hbs,
      byteLength_append, Nat.zero_add]
  have next : (Lexer.mk (bs ++ cs) 0).next = (Lexer.mk cs (byteLength bs)).next := by
    rw [Lexer.next, Lexer.next, skip]
  have tokens : (Lexer.mk (bs ++ cs) 0).tokens = (Lexer.mk cs (byteLength bs)).tokens := by
    rw [Lexer.tokens, Lexer.tokens, next]
  rw [textSymbols, tokens, Lexer.map_symbol_tokens]

/-- A separator comes first. -/
theorem textSymbols_separator_cons (hc : Symbol.ofSeparator? c = some s) (ds : List Char) :
    textSymbols (c :: ds) = s :: textSymbols ds := by
  have blank : ∀ b ∈ ([] : List Char), Text.isBlank b := List.forall_mem_nil _
  have read := Lexer.next_separator blank hc ds 0
  have more : (Lexer.mk (c :: ds) 0).next.1.symbol ≠ .finish := by
    rw [show (Lexer.mk (c :: ds) 0).next = _ from read]
    exact (Symbol.ofSeparator?_eq_some hc).2
  rw [textSymbols, Lexer.tokens_of_symbol_ne more, List.map_cons, Lexer.map_symbol_tokens,
    show (Lexer.mk (c :: ds) 0).next = _ from read]

/-- **A piece comes first**, when what follows it ends a value. -/
theorem textSymbols_piece_append (hcs : IsPiece cs) (hds : EndsValue ds) :
    textSymbols (cs ++ ds) = pieceSymbols cs ++ textSymbols ds := by
  rcases Text.blank_or_eq_append cs with hblank | ⟨bs, c, vs, rfl, hbs, hc⟩
  · rw [textSymbols_blanks_append hblank, pieceSymbols_of_blank hblank, List.nil_append]
  · have word : IsWord (c :: vs) :=
      ⟨fun d hd => by simp [hcs d (List.mem_append_right _ hd)], c, rfl, hc⟩
    have blank : ∀ b ∈ ([] : List Char), Text.isBlank b := List.forall_mem_nil _
    have read := Lexer.next_word blank word hds 0
    have more : (Lexer.mk (c :: vs ++ ds) 0).next.1.symbol ≠ .finish := by
      rw [show (Lexer.mk (c :: vs ++ ds) 0).next = _ from read]
      exact Symbol.noConfusion
    have value : pieceSymbols (c :: vs) = [.value (String.ofList (Text.trimEnd (c :: vs)))] := by
      simp [pieceSymbols, Text.trim, hc]
    rw [List.append_assoc, textSymbols_blanks_append hbs, pieceSymbols_blanks_append hbs, value,
      textSymbols, Lexer.tokens_of_symbol_ne more, List.map_cons, Lexer.map_symbol_tokens,
      show (Lexer.mk (c :: vs ++ ds) 0).next = _ from read]
    rfl

theorem textSymbols_of_isPiece (hcs : IsPiece cs) : textSymbols cs = pieceSymbols cs := by
  have none : textSymbols [] = [] := textSymbols_of_blank (List.forall_mem_nil _)
  have whole : textSymbols (cs ++ []) = pieceSymbols cs ++ textSymbols [] :=
    textSymbols_piece_append hcs trivial
  rwa [none, List.append_nil, List.append_nil] at whole

/-- Induction over a text, piece by piece. -/
@[elab_as_elim]
theorem pieces_inductionOn {motive : List Char → Prop} (cs : List Char)
    (piece : ∀ cs, IsPiece cs → motive cs)
    (cut : ∀ cs c s ds, IsPiece cs → Symbol.ofSeparator? c = some s → motive ds →
      motive (cs ++ c :: ds)) : motive cs := by
  have inside : IsPiece (cs.takeWhile (!isSeparator ·)) := by
    intro c hc
    simpa using List.mem_takeWhile_imp hc
  have halves : cs.takeWhile (!isSeparator ·) ++ cs.dropWhile (!isSeparator ·) = cs :=
    List.takeWhile_append_dropWhile
  have first := List.head?_dropWhile_not (!isSeparator ·) cs
  cases hdrop : cs.dropWhile (!isSeparator ·) with
  | nil =>
    rw [hdrop, List.append_nil] at halves
    exact piece cs (halves ▸ inside)
  | cons c ds =>
    rw [hdrop] at halves first
    have hsep : isSeparator c = true := by simpa using first
    obtain ⟨s, hs⟩ := Option.isSome_iff_exists.mp hsep
    have shorter : ds.length < cs.length := by
      rw [← halves, List.length_append, List.length_cons]
      omega
    rw [← halves]
    exact cut _ c s ds inside hs (pieces_inductionOn ds piece cut)
termination_by cs.length

/-- **A separator stands between the symbols of the texts on its sides.** -/
theorem textSymbols_separator (cs : List Char) (hc : Symbol.ofSeparator? c = some s)
    (ds : List Char) : textSymbols (cs ++ c :: ds) = textSymbols cs ++ s :: textSymbols ds := by
  have ends (c : Char) (s : Symbol) (hc : Symbol.ofSeparator? c = some s) (ds : List Char) :
      EndsValue (c :: ds) := by
    show isSeparator c = true
    rw [isSeparator, hc, Option.isSome_some]
  induction cs using pieces_inductionOn with
  | piece cs hcs =>
    rw [textSymbols_piece_append hcs (ends c s hc ds), textSymbols_separator_cons hc,
      textSymbols_of_isPiece hcs]
  | cut cs c' s' es hcs hc' ih =>
    rw [List.append_assoc, List.cons_append, textSymbols_piece_append hcs (ends c' s' hc' _),
      textSymbols_separator_cons hc', ih, textSymbols_piece_append hcs (ends c' s' hc' _),
      textSymbols_separator_cons hc', List.append_assoc, List.cons_append]

/-- White space at the end does not show. -/
theorem textSymbols_append_blanks (cs : List Char) (hbs : ∀ b ∈ bs, Text.isBlank b) :
    textSymbols (cs ++ bs) = textSymbols cs := by
  induction cs using pieces_inductionOn with
  | piece cs hcs =>
    rw [textSymbols_of_isPiece (hcs.append (isPiece_of_blank hbs)), textSymbols_of_isPiece hcs,
      pieceSymbols_append_blanks cs hbs]
  | cut cs c s ds hcs hc ih =>
    rw [List.append_assoc, List.cons_append, textSymbols_separator cs hc,
      textSymbols_separator cs hc, ih]

/-- A separator is among the symbols as often as its character is in the text. -/
theorem count_textSymbols (hc : Symbol.ofSeparator? c = some s) (cs : List Char) :
    (textSymbols cs).count s = cs.count c := by
  -- a piece has neither the symbol nor the character
  have free {cs : List Char} (hcs : IsPiece cs) : (pieceSymbols cs).count s = cs.count c := by
    have not_mem : c ∉ cs := by
      intro hmem
      have hsep := hcs c hmem
      rw [isSeparator, hc] at hsep
      cases hsep
    have not_mem' : s ∉ pieceSymbols cs := by
      rcases pieceSymbols_eq cs with ⟨hnil, -⟩ | ⟨t, ht⟩
      · rw [hnil]
        exact List.not_mem_nil
      · rw [ht, List.mem_singleton]
        rintro rfl
        exact absurd (Symbol.ofSeparator?_eq_some hc).1 Bool.noConfusion
    rw [List.count_eq_zero_of_not_mem not_mem, List.count_eq_zero_of_not_mem not_mem']
  induction cs using pieces_inductionOn with
  | piece cs hcs => rw [textSymbols_of_isPiece hcs, free hcs]
  | cut cs c' s' ds hcs hc' ih =>
    have same : s' = s ↔ c' = c := by
      constructor
      · rintro rfl
        exact Symbol.ofSeparator?_inj hc' hc
      · rintro rfl
        exact Option.some.inj (hc'.symm.trans hc)
    rw [textSymbols_separator cs hc', textSymbols_of_isPiece hcs, List.count_append,
      List.count_append, List.count_cons, List.count_cons, free hcs, ih]
    simp only [beq_iff_eq, same]

/-! ## Texts side by side -/

/-- What comes after the last separator is white space, if no value does. -/
theorem blank_or_eq_append_separator
    (h : ∀ s ∈ (textSymbols cs).getLast?, s.isValue = false) :
    (∀ c ∈ cs, Text.isBlank c) ∨ ∃ ds c s bs, cs = ds ++ c :: bs ∧
      Symbol.ofSeparator? c = some s ∧ ∀ b ∈ bs, Text.isBlank b := by
  induction cs using pieces_inductionOn with
  | piece cs hcs =>
    rw [textSymbols_of_isPiece hcs] at h
    rcases pieceSymbols_eq cs with ⟨-, hblank⟩ | ⟨t, ht⟩
    · exact .inl hblank
    · rw [ht] at h
      exact absurd (h _ rfl) Bool.noConfusion
  | cut cs c s ds hcs hc ih =>
    have last : ∀ s ∈ (textSymbols ds).getLast?, s.isValue = false := by
      intro s' hs'
      apply h s'
      rw [textSymbols_separator cs hc, List.getLast?_append, List.getLast?_cons]
      simp_all
    rcases ih last with hblank | ⟨es, c', s', bs, rfl, hc', hbs⟩
    · exact .inr ⟨cs, c, s, ds, rfl, hc, hblank⟩
    · exact .inr ⟨cs ++ c :: es, c', s', bs, by simp, hc', hbs⟩

/-- What comes before the first separator is white space, if no value does. -/
theorem blank_or_eq_separator_append
    (h : ∀ s ∈ (textSymbols ds).head?, s.isValue = false) :
    (∀ c ∈ ds, Text.isBlank c) ∨ ∃ bs c s es, ds = bs ++ c :: es ∧
      Symbol.ofSeparator? c = some s ∧ ∀ b ∈ bs, Text.isBlank b := by
  induction ds using pieces_inductionOn with
  | piece ds hds =>
    rw [textSymbols_of_isPiece hds] at h
    rcases pieceSymbols_eq ds with ⟨-, hblank⟩ | ⟨t, ht⟩
    · exact .inl hblank
    · rw [ht] at h
      exact absurd (h _ rfl) Bool.noConfusion
  | cut ds c s es hds hc ih =>
    rw [textSymbols_separator ds hc, textSymbols_of_isPiece hds] at h
    rcases pieceSymbols_eq ds with ⟨-, hblank⟩ | ⟨t, ht⟩
    · exact .inr ⟨ds, c, s, es, rfl, hc, hblank⟩
    · rw [ht] at h
      exact absurd (h _ rfl) Bool.noConfusion

/-- **The symbols of two texts side by side** are those of one after those of
the other, unless a value runs into a value. -/
theorem textSymbols_append
    (h : (∀ s ∈ (textSymbols cs).getLast?, s.isValue = false) ∨
      ∀ s ∈ (textSymbols ds).head?, s.isValue = false) :
    textSymbols (cs ++ ds) = textSymbols cs ++ textSymbols ds := by
  rcases h with hlast | hfirst
  · rcases blank_or_eq_append_separator hlast with hblank | ⟨es, c, s, bs, rfl, hc, hbs⟩
    · rw [textSymbols_blanks_append hblank, textSymbols_of_blank hblank, List.nil_append]
    · rw [List.append_assoc, List.cons_append, textSymbols_separator es hc,
        textSymbols_blanks_append hbs, textSymbols_separator es hc, textSymbols_of_blank hbs, List.append_assoc]
      rfl
  · rcases blank_or_eq_separator_append hfirst with hblank | ⟨bs, c, s, es, rfl, hc, hbs⟩
    · rw [textSymbols_append_blanks cs hblank, textSymbols_of_blank hblank, List.append_nil]
    · rw [← List.append_assoc, textSymbols_separator _ hc, textSymbols_append_blanks cs hbs,
        textSymbols_separator bs hc, textSymbols_of_blank hbs, List.nil_append]

end SeriesParallel
