import SeriesParallel.Proofs.Topology.Lexing

/-!
# Topology — texts that start elsewhere

Where a text starts shows in positions and in nothing else. When it starts `k`
bytes further on, each of its tokens does, and so does the token that is
refused: reading the text gives the same network, or the same failure `k` bytes
further on.
-/

namespace SeriesParallel

/-- The token, `k` bytes further on. -/
def Token.shift (k : Nat) (t : Token) : Token := ⟨t.symbol, t.position + k⟩

/-- The lexer of the same text, `k` bytes further on. -/
def Lexer.shift (k : Nat) (l : Lexer) : Lexer := ⟨l.rest, l.position + k⟩

/-- The failure, `k` bytes further on. Only malformations have a place. -/
def Failure.shift {R : Type} (k : Nat) : Failure R → Failure R
  | malformed position cause => malformed (position + k) cause
  | insufficient supply => insufficient supply
  | degenerate cause => degenerate cause

/-- The tokens of a stream, `k` bytes further on. -/
def TokenStream.shift (k : Nat) (s : TokenStream) : TokenStream :=
  ⟨s.tokens.map (Token.shift k), s.finish + k⟩

variable (k : Nat)

/-! ## Tokens -/

namespace Lexer

theorem skipWhile_shift (p : Char → Bool) (l : Lexer) :
    (l.shift k).skipWhile p = (l.skipWhile p).shift k := by
  simp only [skipWhile, shift, Nat.add_right_comm]

/-- **A token moves with its text.** -/
theorem next_shift (l : Lexer) :
    (l.shift k).next = (l.next.1.shift k, l.next.2.shift k) := by
  simp only [next, skipWhile_shift]
  generalize l.skipWhile Text.isBlank = l'
  obtain ⟨rest, position⟩ := l'
  cases rest with
  | nil => rfl
  | cons c cs =>
    cases hc : Symbol.ofSeparator? c with
    | none => simp only [shift, hc, Token.shift, skipWhile, Nat.add_right_comm]
    | some s => simp only [shift, hc, Token.shift, Nat.add_right_comm]

theorem tokens_shift (l : Lexer) : (l.shift k).tokens = l.tokens.map (Token.shift k) := by
  induction l using inductionOn with
  | blank l h => rw [tokens_of_blank h, tokens_of_blank (l := l.shift k) h, List.map_nil]
  | token l bs ts h ih =>
    have more : (l.shift k).next.1.symbol ≠ .finish := by
      rw [next_shift]
      exact h.symbol_ne
    rw [tokens_of_symbol_ne more, next_shift, ih, h.tokens_eq, List.map_cons]

end Lexer

theorem TokenStream.ofString_shift (text : String) (position : Nat) :
    ofString text (position + k) = (ofString text position).shift k := by
  have tokens := Lexer.tokens_shift k (.ofString text position)
  have finish : (Lexer.ofString text (position + k)).finish
      = (Lexer.ofString text position).finish + k := Nat.add_right_comm _ _ _
  rw [ofString, shift, ofString, finish]
  exact congrArg (TokenStream.mk · _) tokens

/-! ## Drafts -/

/-- What maps the failure of two steps maps that of each. -/
theorem mapError_bind {ε α β : Type} (f : ε → ε) (x : Except ε α) (g : α → Except ε β) :
    (x >>= g).mapError f = x.mapError f >>= fun a => (g a).mapError f := by
  cases x <;> rfl

theorem mapError_map {ε α β : Type} (f : ε → ε) (x : Except ε α) (g : α → β) :
    (x.map g).mapError f = (x.mapError f).map g := by
  cases x <;> rfl

theorem readResistor_shift (text : String) (position : Nat) :
    readResistor text (position + k) = (readResistor text position).mapError (Failure.shift k) := by
  unfold readResistor
  cases readValue? text with
  | none => rfl
  | some r =>
    simp only
    split <;> rfl

theorem OpenGroup.endSeries_shift (g : OpenGroup) (position : Nat) :
    g.endSeries (position + k) = (g.endSeries position).mapError (Failure.shift k) := by
  unfold endSeries
  split <;> rfl

namespace Draft

variable (d : Draft)

theorem separate_shift (t : Token) :
    d.separate (t.shift k) = (d.separate t).mapError (Failure.shift k) := by
  obtain ⟨s, position⟩ := t
  rw [separate, separate, mapError_bind, Token.shift, OpenGroup.endSeries_shift]
  congr 1
  funext g
  cases s <;> rfl

/-- **A step moves with its token**: it takes the token in, or refuses it, as it
did before. -/
theorem step_shift (t : Token) :
    d.step (t.shift k) = (d.step t).mapError (Failure.shift k) := by
  have separator := d.separate_shift k t
  obtain ⟨s, position⟩ := t
  cases s with
  | value text =>
    show (readResistor text (position + k)).map _ = ((readResistor text position).map _).mapError _
    rw [readResistor_shift, mapError_map]
  | colon => rfl
  | dot =>
    simp only [step, Token.shift, if_true]
    split
    · rfl
    · split <;> rfl
  | comma | semicolon | finish =>
    simp only [Token.shift] at separator
    simp only [step, Token.shift, reduceCtorEq, if_false]
    split
    · rfl
    · exact separator

theorem closeAll_shift (position : Nat) (e : Element Float) (gs : List OpenGroup) :
    closeAll (position + k) e gs = (closeAll position e gs).mapError (Failure.shift k) := by
  induction gs generalizing e with
  | nil => rfl
  | cons g gs ih =>
    rw [closeAll, closeAll, mapError_bind, OpenGroup.endSeries_shift]
    congr 1
    funext g'
    exact ih g'.close

theorem finish_shift (position : Nat) :
    d.finish (position + k) = (d.finish position).mapError (Failure.shift k) := by
  unfold finish
  split
  · rfl
  · rw [mapError_bind, OpenGroup.endSeries_shift]
    congr 1
    funext g
    exact closeAll_shift k position g.close d.enclosing

end Draft

/-! ## Whole topologies -/

theorem Failure.consumesToken_shift (e : Failure Float) :
    (e.shift k).consumesToken = e.consumesToken := by
  cases e <;> rfl

namespace TokenStream

/-- A run moves with its tokens and the end of the text. -/
theorem run_shift (finish : Nat) (d : Draft) (ts : List Token) :
    run (finish + k) d (ts.map (Token.shift k)) =
      ((run finish d ts).1.mapError (Failure.shift k), (run finish d ts).2.map (Token.shift k)) := by
  induction ts generalizing d with
  | nil => rw [List.map_nil, run, run, Draft.finish_shift, List.map_nil]
  | cons t ts ih =>
    rw [List.map_cons, run, run, Draft.step_shift]
    cases d.step t with
    | error e =>
      simp only [Except.mapError, Failure.consumesToken_shift]
      split <;> rfl
    | ok p =>
      cases p with
      | reading d' => exact ih d'
      | closed root => rfl

theorem parse_shift (s : TokenStream) :
    (s.shift k).parse = (s.parse.1.mapError (Failure.shift k), s.parse.2.shift k) := by
  have moved := run_shift k s.finish .start s.tokens
  simp only [parse, shift, moved]
  obtain ⟨result, rest⟩ := run s.finish .start s.tokens
  cases result with
  | error e => rfl
  | ok root => cases rest <;> rfl

end TokenStream

/-- **A topology moves with its text.** -/
theorem parseTopology_shift (text : String) (position : Nat) :
    parseTopology text (position + k) =
      (parseTopology text position).mapError (Failure.shift k) := by
  rw [parseTopology, TokenStream.ofString_shift, TokenStream.parse_shift, parseTopology]

end SeriesParallel
