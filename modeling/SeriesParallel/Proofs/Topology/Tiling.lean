import Mathlib.Data.List.Chain
import SeriesParallel.Proofs.Topology.Lexing

/-!
# Topology — tokens tile their text

Nothing of a text is lost when it is read. Its tokens stand in it one behind
another, each written where its position says, and what is around them is white
space. White space behind a value is read with the value but belongs to no
token.

Tokens are read one at a time. Once the text has ended, every further token is
its end.
-/

namespace SeriesParallel

/-! ## Tilings -/

/-- A text that starts at `position` consists of the given tokens, each written
at its position, and of white space in front of, between and behind them. -/
inductive Tiles : Nat → List Char → List Token → Prop
  | blank {position : Nat} {bs : List Char} (hbs : ∀ b ∈ bs, Text.isBlank b) :
      Tiles position bs []
  | token {position : Nat} {bs cs : List Char} {t : Token} {ts : List Token}
      (hbs : ∀ b ∈ bs, Text.isBlank b) (ht : t.position = position + byteLength bs)
      (rest : Tiles (t.position + byteLength t.symbol.text.toList) cs ts) :
      Tiles position (bs ++ (t.symbol.text.toList ++ cs)) (t :: ts)

namespace Tiles

variable {position : Nat} {bs cs : List Char} {t : Token} {ts : List Token}

/-- White space in front of a text changes none of its tokens. -/
theorem blanks_append (hbs : ∀ b ∈ bs, Text.isBlank b)
    (h : Tiles (position + byteLength bs) cs ts) : Tiles position (bs ++ cs) ts := by
  cases h with
  | blank hcs => exact .blank (List.forall_mem_append.mpr ⟨hbs, hcs⟩)
  | token hbs' ht rest =>
    rw [← List.append_assoc]
    refine .token (List.forall_mem_append.mpr ⟨hbs, hbs'⟩) ?_ rest
    rw [ht, byteLength_append, Nat.add_assoc]

/-- **A token is written where it stands.** -/
theorem exists_eq_append (h : Tiles position cs ts) (ht : t ∈ ts) :
    ∃ before after, cs = before ++ (t.symbol.text.toList ++ after) ∧
      t.position = position + byteLength before := by
  induction h with
  | blank hbs => exact absurd ht List.not_mem_nil
  | @token position bs cs u ts hbs hu rest ih =>
    rcases List.mem_cons.mp ht with rfl | ht
    · exact ⟨bs, cs, rfl, hu⟩
    · obtain ⟨before, after, rfl, hposition⟩ := ih ht
      refine ⟨bs ++ (u.symbol.text.toList ++ before), after, by simp only [List.append_assoc], ?_⟩
      rw [hposition, hu, byteLength_append, byteLength_append]
      omega

end Tiles

/-! ## Values -/

theorem IsWord.ne_nil {vs : List Char} (h : IsWord vs) : vs ≠ [] := (Spells.word h).ne_nil

/-- A word stays one without the white space behind it. -/
theorem IsWord.trimEnd {vs : List Char} (h : IsWord vs) : IsWord (Text.trimEnd vs) := by
  obtain ⟨bs, hbs, hvs⟩ := Text.exists_dropEnd_append Text.isBlank vs
  obtain ⟨c, hc, hblank⟩ := h.first
  refine ⟨fun d hd => h.inside d ?_, c, ?_, hblank⟩
  · rw [hvs]
    exact List.mem_append_left bs hd
  · cases hkept : Text.trimEnd vs with
    | nil =>
      -- the word would be white space
      have whole : vs = bs := by rwa [show Text.dropEnd Text.isBlank vs = [] from hkept] at hvs
      have white : Text.isBlank c = true := hbs c (whole ▸ List.mem_of_mem_head? hc)
      exact absurd (hblank.symm.trans white) Bool.noConfusion
    | cons d ds =>
      rw [hvs, show Text.dropEnd Text.isBlank vs = d :: ds from hkept] at hc
      exact hc

/-- The text of a value: no separator is in it, and no white space is at its
ends. -/
structure IsValueText (vs : List Char) : Prop where
  word : IsWord vs
  last : ∃ c ∈ vs.getLast?, Text.isBlank c = false

theorem IsWord.isValueText_trimEnd {vs : List Char} (h : IsWord vs) :
    IsValueText (Text.trimEnd vs) := by
  obtain ⟨c, hc⟩ := Option.ne_none_iff_exists'.mp
    (mt List.getLast?_eq_none_iff.mp h.trimEnd.ne_nil)
  exact ⟨h.trimEnd, c, hc, Text.getLast?_dropEnd Text.isBlank vs c hc⟩

namespace Spells

variable {ts : List Char} {s : Symbol}

/-- What a symbol is written with is its text, and white space behind it. -/
theorem exists_text (h : Spells ts s) :
    ∃ bs, (∀ b ∈ bs, Text.isBlank b) ∧ ts = s.text.toList ++ bs := by
  cases h with
  | @separator c s hc =>
    refine ⟨[], List.forall_mem_nil _, ?_⟩
    unfold Symbol.ofSeparator? at hc
    split at hc <;> cases hc <;> rfl
  | word hvs =>
    obtain ⟨bs, hbs, hts⟩ := Text.exists_dropEnd_append Text.isBlank ts
    exact ⟨bs, hbs, by rw [Symbol.text, String.toList_ofList]; exact hts⟩

theorem isValueText (h : Spells ts s) {v : String} (hs : s = .value v) : IsValueText v.toList := by
  cases h with
  | separator hc => exact absurd (hs ▸ Symbol.ofSeparator?_eq_some hc).1 Bool.noConfusion
  | word hvs =>
    cases hs
    rw [String.toList_ofList]
    exact hvs.isValueText_trimEnd

end Spells

/-! ## The tokens of a text -/

namespace Lexer

/-- **Tokens tile their text.** -/
theorem tiles_tokens (l : Lexer) : Tiles l.position l.rest l.tokens := by
  induction l using inductionOn with
  | blank l h =>
    rw [tokens_of_blank h]
    exact .blank h
  | token l bs ts h ih =>
    obtain ⟨blanks, hblanks, hts⟩ := h.spells.exists_text
    have behind : l.next.2.position
        = l.next.1.position + byteLength l.next.1.symbol.text.toList + byteLength blanks := by
      rw [h.next_position, hts, byteLength_append, Nat.add_assoc]
    rw [h.tokens_eq, h.rest_eq, hts, List.append_assoc]
    rw [behind] at ih
    exact .token h.blank h.token_position (ih.blanks_append hblanks)

/-- What ends a value does not start with one. -/
theorem isValue_head?_tokens {l : Lexer} (h : EndsValue l.rest) :
    ∀ t ∈ l.tokens.head?, t.symbol.isValue = false := by
  obtain ⟨rest, position⟩ := l
  intro t ht
  cases rest with
  | nil =>
    rw [tokens_of_blank (List.forall_mem_nil _)] at ht
    cases ht
  | cons c cs =>
    obtain ⟨s, hs⟩ := Option.isSome_iff_exists.mp h
    have read : next ⟨c :: cs, position⟩ = _ :=
      next_separator (List.forall_mem_nil fun b => Text.isBlank b = true) hs cs position
    have more : (next ⟨c :: cs, position⟩).1.symbol ≠ .finish := by
      rw [read]
      exact (Symbol.ofSeparator?_eq_some hs).2
    rw [tokens_of_symbol_ne more, read] at ht
    cases ht
    exact (Symbol.ofSeparator?_eq_some hs).1

/-- **No two values are neighbours.** -/
theorem isChain_tokens (l : Lexer) :
    l.tokens.IsChain fun t u => ¬(t.symbol.isValue ∧ u.symbol.isValue) := by
  induction l using inductionOn with
  | blank l h =>
    rw [tokens_of_blank h]
    exact .nil
  | token l bs ts h ih =>
    rw [h.tokens_eq]
    refine List.isChain_cons.mpr ⟨fun u hu hvalues => ?_, ih⟩
    have noValue := isValue_head?_tokens (h.endsValue hvalues.1) u hu
    exact absurd (noValue.symm.trans hvalues.2) Bool.noConfusion

/-- There are no more tokens than characters. -/
theorem length_tokens_le (l : Lexer) : l.tokens.length ≤ l.rest.length := by
  induction l using inductionOn with
  | blank l h =>
    rw [tokens_of_blank h]
    exact Nat.zero_le _
  | token l bs ts h ih =>
    have shorter := length_next_lt l h.symbol_ne
    rw [h.tokens_eq, List.length_cons]
    omega

/-! ## Token after token -/

/-- The lexer after some tokens have been read. -/
def after : Lexer → Nat → Lexer
  | l, 0 => l
  | l, n + 1 => l.next.2.after n

/-- At the end of a text, only its end is read. -/
theorem next_after_of_blank {l : Lexer} (h : ∀ c ∈ l.rest, Text.isBlank c) (n : Nat) :
    (l.after n).next.1 = ⟨.finish, l.finish⟩ := by
  induction n generalizing l with
  | zero => exact congrArg Prod.fst (next_blanks h l.position)
  | succ n ih =>
    have read : l.next.2 = ⟨[], l.finish⟩ := congrArg Prod.snd (next_blanks h l.position)
    rw [after, read, ih (List.forall_mem_nil _)]
    rfl

/-- **Reading gives one token after another**, and then the end of the text for
good. -/
theorem next_after (l : Lexer) (n : Nat) :
    (l.after n).next.1 = l.tokens[n]?.getD ⟨.finish, l.finish⟩ := by
  induction l using inductionOn generalizing n with
  | blank l h => rw [next_after_of_blank h, tokens_of_blank h, List.getElem?_nil, Option.getD_none]
  | token l bs ts h ih =>
    rw [h.tokens_eq]
    cases n with
    | zero => rfl
    | succ n => rw [after, ih, h.finish_eq, List.getElem?_cons_succ]

end Lexer

/-! ## Lexing is lossless -/

/-- How the tokens of a text relate to it, and to reading it. -/
structure Lossless (text : String) (position : Nat) (ts : List Token) : Prop where
  /-- The tokens are read one after another, and then the end of the text again
  and again. -/
  read : ∀ n, ((Lexer.ofString text position).after n).next.1 =
    ts[n]?.getD ⟨.finish, position + text.utf8ByteSize⟩
  symbol_ne : ∀ t ∈ ts, t.symbol ≠ .finish
  length_le : ts.length ≤ text.length
  ascending : ts.Pairwise fun t u => t.position < u.position
  /-- A token is written at its position. -/
  written : ∀ t ∈ ts, ∃ before after, text = before ++ t.symbol.text ++ after ∧
    t.position = position + before.utf8ByteSize
  /-- What is not written by a token is white space. -/
  tiles : Tiles position text.toList ts
  values : ∀ t ∈ ts, ∀ v, t.symbol = .value v → IsValueText v.toList
  apart : ts.IsChain fun t u => ¬(t.symbol.isValue ∧ u.symbol.isValue)

/-- **Lexing is lossless**, for every text wherever it starts. -/
theorem lossless_tokens (text : String) (position : Nat) :
    Lossless text position (Lexer.ofString text position).tokens := by
  let l := Lexer.ofString text position
  have finish : l.finish = position + text.utf8ByteSize := by
    show position + byteLength text.toList = _
    rw [byteLength_eq, String.ofList_toList]
  have tiles : Tiles position text.toList l.tokens := l.tiles_tokens
  constructor
  · intro n
    rw [← finish]
    exact l.next_after n
  · exact fun t ht => Lexer.symbol_ne_finish ht
  · exact l.length_tokens_le.trans_eq String.length_toList
  · exact (List.pairwise_append.mp l.pairwise_sequence.2).1
  · intro t ht
    obtain ⟨before, after, htext, hposition⟩ := tiles.exists_eq_append ht
    refine ⟨String.ofList before, String.ofList after, String.toList_injective ?_, ?_⟩
    · simp only [String.toList_append, String.toList_ofList, List.append_assoc, htext]
    · rw [hposition, byteLength_eq]
  · exact tiles
  · exact l.forall_mem_tokens fun _ _ _ h _ hs => h.spells.isValueText hs
  · exact l.isChain_tokens

/-- Positions count bytes, and the white space inside a value is its own. -/
example : (Lexer.ofString " 4 kΩ :é" 10).tokens =
    [⟨.value "4 kΩ", 11⟩, ⟨.colon, 17⟩, ⟨.value "é", 18⟩] := by
  decide +kernel

end SeriesParallel
