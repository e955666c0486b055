import SeriesParallel.Text.Blank

/-!
# Topology — tokens

The topology of a circuit is written with values and four separators. White
space around a token is skipped; inside a value it stays, so that `10 20` is
one value and not two. Positions are byte offsets.
-/

namespace SeriesParallel

/-- What a token stands for. -/
inductive Symbol where
  /-- A resistance, possibly with a unit suffix. -/
  | value (text : String)
  /-- `.`, the next element of the chain. -/
  | dot
  /-- `:`, opens a group. -/
  | colon
  /-- `,`, the next branch of the innermost open group. -/
  | comma
  /-- `;`, closes the innermost open group. -/
  | semicolon
  /-- The end of the text. -/
  | finish
  deriving Repr, DecidableEq

/-- The symbol of a separator character. -/
def Symbol.ofSeparator? : Char → Option Symbol
  | '.' => some dot
  | ':' => some colon
  | ',' => some comma
  | ';' => some semicolon
  | _ => none

/-- Whether a character ends a value. -/
def isSeparator (c : Char) : Bool := (Symbol.ofSeparator? c).isSome

/-- A symbol as it is written. -/
def Symbol.text : Symbol → String
  | value t => t
  | dot => "."
  | colon => ":"
  | comma => ","
  | semicolon => ";"
  | finish => ""

/-- A symbol and where it starts. -/
structure Token where
  symbol : Symbol
  position : Nat
  deriving Repr, DecidableEq

/-- The number of bytes of a text. -/
def byteLength (cs : List Char) : Nat := cs.foldl (fun n c => n + c.utf8Size) 0

/-! ## The lexer -/

/-- The text still to be read and the position of its first character. -/
structure Lexer where
  rest : List Char
  position : Nat
  deriving Repr, DecidableEq

namespace Lexer

/-- A lexer for a text that starts at a given position. -/
def ofString (text : String) (position : Nat) : Lexer := ⟨text.toList, position⟩

/-- The lexer after the characters at the front that satisfy `p`. -/
def skipWhile (p : Char → Bool) (l : Lexer) : Lexer :=
  ⟨l.rest.dropWhile p, l.position + byteLength (l.rest.takeWhile p)⟩

/-- Reads one token. At the end of the text the token is `finish`, however
often it is asked for. -/
def next (l : Lexer) : Token × Lexer :=
  let l := l.skipWhile Text.isBlank
  match l.rest with
  | [] => (⟨.finish, l.position⟩, l)
  | c :: cs =>
    match Symbol.ofSeparator? c with
    | some s => (⟨s, l.position⟩, ⟨cs, l.position + c.utf8Size⟩)
    | none =>
      let text := Text.trimEnd (l.rest.takeWhile (!isSeparator ·))
      (⟨.value (String.ofList text), l.position⟩, l.skipWhile (!isSeparator ·))

theorem length_skipWhile_le (p : Char → Bool) (l : Lexer) :
    (l.skipWhile p).rest.length ≤ l.rest.length := by
  simpa [skipWhile] using (List.dropWhile_sublist p).length_le

/-- **Reading a token shortens the text**, unless it has ended. -/
theorem length_next_lt (l : Lexer) (h : l.next.1.symbol ≠ .finish) :
    l.next.2.rest.length < l.rest.length := by
  have hskip := length_skipWhile_le Text.isBlank l
  revert h
  simp only [next]
  split
  · simp
  next c cs hrest =>
    simp only [hrest, List.length_cons] at hskip
    split
    · intro _
      show cs.length < l.rest.length
      omega
    next hsep =>
      intro _
      have hc : (!isSeparator c) = true := by simp [isSeparator, hsep]
      have hvalue : ((l.skipWhile Text.isBlank).skipWhile (!isSeparator ·)).rest.length
          ≤ cs.length := by
        simp only [skipWhile] at hrest ⊢
        rw [hrest, List.dropWhile_cons, if_pos hc]
        exact (List.dropWhile_sublist _).length_le
      exact Nat.lt_of_le_of_lt hvalue (by omega)

/-- All tokens before the end of the text. -/
def tokens (l : Lexer) : List Token :=
  match _step : l.next with
  | (t, l') => if _more : t.symbol = .finish then [] else t :: l'.tokens
termination_by l.rest.length
decreasing_by
  have h := length_next_lt l
  rw [_step] at h
  exact h _more

/-- The position of the end of the text. -/
def finish (l : Lexer) : Nat := l.position + byteLength l.rest

end Lexer

end SeriesParallel
