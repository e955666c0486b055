import SeriesParallel.Proofs.Schematic.Ports

/-!
# Schematic — strokes of drawn lines

A box-drawing character shows strokes from its middle to some of its four
sides. In a text, strokes meet when every stroke that reaches a side of a
character goes on in the character beyond that side.

A line is read from left to right, and lines from top to bottom, as a
**thread**: what leaves an item at one end arrives at the next item. Threads
compose, so lines are made of pieces and texts of lines; and neighbours on a
thread match.
-/

namespace SeriesParallel

/-! ## Threads -/

/-- What passes through a list from its start to its end: what leaves an item
arrives at the next one. -/
def Threads {α β : Type} (arrive leave : α → β) : β → List α → β → Prop
  | x, [], y => x = y
  | x, a :: as, y => arrive a = x ∧ Threads arrive leave (leave a) as y

namespace Threads

variable {α β γ : Type} {arrive leave : α → β} {x y z : β} {a b : α} {as bs : List α}

theorem nil (x : β) : Threads arrive leave x [] x := rfl

theorem singleton (a : α) : Threads arrive leave (arrive a) [a] (leave a) := ⟨rfl, rfl⟩

/-- **Threads compose.** -/
theorem append (h : Threads arrive leave x as y) (h' : Threads arrive leave y bs z) :
    Threads arrive leave x (as ++ bs) z := by
  induction as generalizing x with
  | nil =>
    cases h
    exact h'
  | cons a as ih => exact ⟨h.1, ih h.2⟩

theorem replicate (hin : arrive a = x) (hout : leave a = x) (n : Nat) :
    Threads arrive leave x (List.replicate n a) x := by
  induction n with
  | zero => exact nil x
  | succ n ih =>
    rw [List.replicate_succ]
    exact ⟨hin, hout ▸ ih⟩

/-- A thread through the items from `0` to `n`. -/
theorem map_range_succ {f : Nat → α} {n : Nat}
    (next : ∀ i < n, leave (f i) = arrive (f (i + 1))) :
    Threads arrive leave (arrive (f 0)) ((List.range (n + 1)).map f) (leave (f n)) := by
  induction n with
  | zero => exact singleton (f 0)
  | succ n ih =>
    rw [List.range_succ, List.map_append, List.map_singleton]
    have before := ih fun i hi => next i (Nat.lt_succ_of_lt hi)
    exact before.append ⟨(next n (Nat.lt_succ_self n)).symm, rfl⟩

/-- A thread through items, each of which is a thread, goes through all of them. -/
theorem flatMap {arrive' leave' : γ → β} {cs : List γ} {f : γ → List α}
    (h : Threads arrive' leave' x cs y)
    (inner : ∀ c ∈ cs, Threads arrive leave (arrive' c) (f c) (leave' c)) :
    Threads arrive leave x (cs.flatMap f) y := by
  induction cs generalizing x with
  | nil => exact h
  | cons c cs ih =>
    obtain ⟨rfl, h⟩ := h
    rw [List.flatMap_cons]
    exact (inner c List.mem_cons_self).append
      (ih h fun d hd => inner d (List.mem_cons_of_mem _ hd))

/-- **Neighbours on a thread match.** -/
theorem adjacent (h : Threads arrive leave x as y) {i : Nat} (ha : as[i]? = some a)
    (hb : as[i + 1]? = some b) : leave a = arrive b := by
  induction as generalizing x i with
  | nil => simp at ha
  | cons c as ih =>
    cases i with
    | zero =>
      cases as with
      | nil => simp at hb
      | cons d as =>
        simp only [List.getElem?_cons_zero, Option.some.injEq] at ha
        simp only [Nat.zero_add, List.getElem?_cons_succ, List.getElem?_cons_zero,
          Option.some.injEq] at hb
        subst ha hb
        exact h.2.1.symm
    | succ i => exact ih h.2 (by simpa using ha) (by simpa using hb)

theorem first (h : Threads arrive leave x as y) (ha : as[0]? = some a) : arrive a = x := by
  cases as with
  | nil => simp at ha
  | cons c as =>
    simp only [List.getElem?_cons_zero, Option.some.injEq] at ha
    exact ha ▸ h.1

theorem last (h : Threads arrive leave x as y) {i : Nat} (ha : as[i]? = some a)
    (hnone : as[i + 1]? = none) : leave a = y := by
  induction as generalizing x i with
  | nil => simp at ha
  | cons c as ih =>
    cases i with
    | zero =>
      cases as with
      | nil =>
        simp only [List.getElem?_cons_zero, Option.some.injEq] at ha
        exact ha ▸ h.2
      | cons d as => simp at hnone
    | succ i => exact ih h.2 (by simpa using ha) (by simpa using hnone)

end Threads

/-! ## Characters -/

/-- The sides that the strokes of a box-drawing character reach, of those with
light and double strokes. Other characters have no strokes. -/
def strokes : Char → List Side
  | '─' | '═' => [.left, .right]
  | '│' | '║' => [.up, .down]
  | '┌' | '╔' | '╒' | '╓' => [.down, .right]
  | '┐' | '╗' | '╕' | '╖' => [.down, .left]
  | '└' | '╚' | '╘' | '╙' => [.up, .right]
  | '┘' | '╝' | '╛' | '╜' => [.up, .left]
  | '├' | '╠' | '╞' | '╟' => [.up, .down, .right]
  | '┤' | '╣' | '╡' | '╢' => [.up, .down, .left]
  | '┬' | '╦' | '╤' | '╥' => [.down, .left, .right]
  | '┴' | '╩' | '╧' | '╨' => [.up, .left, .right]
  | '┼' | '╬' | '╪' | '╫' => [.up, .down, .left, .right]
  | _ => []

/-- Whether a stroke of a character reaches a side. -/
def hasStroke (c : Char) (side : Side) : Bool := (strokes c).contains side

/-- The strokes of a line that reach a vertical side of its characters. -/
def strokesAt (side : Side) (line : List Char) : List Bool := line.map (hasStroke · side)

/-- A line whose strokes meet, with or without strokes that reach its ends. -/
def Wired : Bool → List Char → Bool → Prop := Threads (hasStroke · .left) (hasStroke · .right)

namespace Wired

variable {x y z : Bool} {c : Char} {line line' : List Char}

theorem cons (hleft : hasStroke c .left = x) (h : Wired (hasStroke c .right) line y) :
    Wired x (c :: line) y := ⟨hleft, h⟩

theorem append (h : Wired x line y) (h' : Wired y line' z) : Wired x (line ++ line') z :=
  Threads.append h h'

theorem replicate (hleft : hasStroke c .left = x) (hright : hasStroke c .right = x) (n : Nat) :
    Wired x (List.replicate n c) x :=
  Threads.replicate (a := c) hleft hright n

/-- Characters without strokes. -/
theorem blank (h : ∀ c ∈ line, strokes c = []) : Wired false line false := by
  induction line with
  | nil => rfl
  | cons c line ih =>
    have none (side : Side) : hasStroke c side = false := by
      rw [hasStroke, h c List.mem_cons_self]
      rfl
    refine .cons (none .left) ?_
    rw [none .right]
    exact ih fun d hd => h d (List.mem_cons_of_mem _ hd)

end Wired

/-- Lines whose strokes meet, with the strokes that reach above and below. -/
def Stacked : List Bool → List (List Char) → List Bool → Prop :=
  Threads (strokesAt .up) (strokesAt .down)

theorem length_strokesAt (side : Side) (line : List Char) :
    (strokesAt side line).length = line.length := List.length_map _

/-- **Lines whose strokes meet have one width.** -/
theorem Stacked.length_eq {above below : List Bool} {lines : List (List Char)}
    (h : Stacked above lines below) : ∀ line ∈ lines, line.length = above.length := by
  induction lines generalizing above with
  | nil => exact fun line hline => absurd hline List.not_mem_nil
  | cons first lines ih =>
    obtain ⟨rfl, h⟩ := h
    intro line hline
    rcases List.mem_cons.mp hline with rfl | hline
    · exact (length_strokesAt .up line).symm
    · rw [ih h line hline, length_strokesAt, length_strokesAt]

/-! ## Texts -/

/-- The lines of a text, each ended by a line feed. -/
def textLines (text : String) : List (List Char) := (text.toList.splitOn '\n').dropLast

theorem textLines_ofList {lines : List (List Char)} (h : ∀ line ∈ lines, '\n' ∉ line) :
    textLines (String.ofList (lines.flatMap (· ++ ['\n']))) = lines := by
  have split : (lines.flatMap (· ++ ['\n'])).splitOn '\n' = lines ++ [[]] := by
    induction lines with
    | nil => rfl
    | cons line lines ih =>
      rw [List.flatMap_cons, List.append_assoc, List.singleton_append, List.splitOn,
        List.splitOnP_append_cons_of_forall_mem, ← List.splitOn,
        ih fun l hl => h l (List.mem_cons_of_mem _ hl), List.cons_append]
      · intro c hc
        have : c ≠ '\n' := fun hn => h line List.mem_cons_self (hn ▸ hc)
        simpa using this
      · rfl
  rw [textLines, String.toList_ofList, split, List.dropLast_concat]

/-- The character at a line and a column. -/
def charAt? (lines : List (List Char)) (row column : Nat) : Option Char :=
  lines[row]?.bind (·[column]?)

/-- There is a character at the place of a port. -/
def InText (lines : List (List Char)) (p : Port) : Prop :=
  (charAt? lines p.row p.column).isSome

/-- A stroke of a character reaches the side of its place that a port names. -/
def StrokeAt (lines : List (List Char)) (p : Port) : Prop :=
  ∃ c, charAt? lines p.row p.column = some c ∧ hasStroke c p.side

theorem StrokeAt.inText {lines : List (List Char)} {p : Port} (h : StrokeAt lines p) :
    InText lines p := by
  obtain ⟨c, hc, -⟩ := h
  exact Option.isSome_of_eq_some hc

/-- Lines whose strokes meet. No strokes reach the ends of a line, and `ends`
tells those that reach above the first line and below the last one. -/
structure Drawing (lines : List (List Char)) (ends : List Bool) : Prop where
  wired : ∀ line ∈ lines, Wired false line false
  stacked : Stacked ends lines ends

theorem charAt?_eq_some_iff {lines : List (List Char)} {row column : Nat} {c : Char} :
    charAt? lines row column = some c ↔
      ∃ chars, lines[row]? = some chars ∧ chars[column]? = some c := Option.bind_eq_some_iff

namespace Drawing

variable {lines : List (List Char)} {ends : List Bool} {p q : Port}
  {row column : Nat} {a b : Char}

theorem inText_iff (h : Drawing lines ends) :
    InText lines p ↔ p.row < lines.length ∧ p.column < ends.length := by
  unfold InText charAt?
  by_cases hrow : p.row < lines.length
  · have hwidth := h.stacked.length_eq _ (List.getElem_mem hrow)
    simp [hrow, hwidth]
  · simp [hrow]

theorem meets_right (h : Drawing lines ends) (ha : charAt? lines row column = some a)
    (hb : charAt? lines row (column + 1) = some b) : hasStroke a .right = hasStroke b .left := by
  obtain ⟨line, hline, ha⟩ := charAt?_eq_some_iff.mp ha
  obtain ⟨line', hline', hb⟩ := charAt?_eq_some_iff.mp hb
  cases hline.symm.trans hline'
  exact (h.wired line (List.mem_of_getElem? hline)).adjacent ha hb

theorem meets_below (h : Drawing lines ends) (ha : charAt? lines row column = some a)
    (hb : charAt? lines (row + 1) column = some b) : hasStroke a .down = hasStroke b .up := by
  obtain ⟨line, hline, ha⟩ := charAt?_eq_some_iff.mp ha
  obtain ⟨line', hline', hb⟩ := charAt?_eq_some_iff.mp hb
  have meet : strokesAt .down line = strokesAt .up line' := h.stacked.adjacent hline hline'
  have at_column := congrArg (·[column]?) meet
  simpa [strokesAt, ha, hb] using at_column

/-- **Strokes meet**: of two characters side by side or one above the other,
one has a stroke towards the other exactly when the other has one back. -/
theorem meets (h : Drawing lines ends) (faces : p.Faces q) (hp : InText lines p)
    (hq : InText lines q) : StrokeAt lines p ↔ StrokeAt lines q := by
  obtain ⟨a, ha⟩ := Option.isSome_iff_exists.mp hp
  obtain ⟨b, hb⟩ := Option.isSome_iff_exists.mp hq
  have meet : hasStroke a p.side = hasStroke b q.side := by
    obtain ⟨r, k, side⟩ := p
    obtain ⟨r', k', side'⟩ := q
    cases side <;> cases side' <;> simp only [Port.Faces] at faces <;>
      obtain ⟨rfl, rfl⟩ := faces
    · exact (h.meets_below hb ha).symm
    · exact h.meets_below ha hb
    · exact (h.meets_right hb ha).symm
    · exact h.meets_right ha hb
  simp only [StrokeAt, ha, hb, Option.some.injEq, exists_eq_left', meet]

/-! ### The ends of a drawing -/

theorem not_strokeAt_left (h : Drawing lines ends) : ¬StrokeAt lines ⟨row, 0, .left⟩ := by
  intro hp
  obtain ⟨c, hc, stroke⟩ := hp
  obtain ⟨line, hline, hc⟩ := charAt?_eq_some_iff.mp hc
  rw [(h.wired line (List.mem_of_getElem? hline)).first hc] at stroke
  exact Bool.false_ne_true stroke

theorem not_strokeAt_right (h : Drawing lines ends) (hlast : ends.length ≤ column + 1) :
    ¬StrokeAt lines ⟨row, column, .right⟩ := by
  intro hp
  obtain ⟨c, hc, stroke⟩ := hp
  obtain ⟨chars, hline, hc⟩ := charAt?_eq_some_iff.mp hc
  have hmem : chars ∈ lines := List.mem_of_getElem? hline
  have hnone : chars[column + 1]? = none := by
    apply List.getElem?_eq_none
    rw [h.stacked.length_eq chars hmem]
    exact hlast
  rw [(h.wired chars hmem).last hc hnone] at stroke
  exact Bool.false_ne_true stroke

theorem strokeAt_top_iff (h : Drawing lines ends) (nonempty : 0 < lines.length) :
    StrokeAt lines ⟨0, column, .up⟩ ↔ ends[column]? = some true := by
  have hline : lines[0]? = some lines[0] := List.getElem?_eq_getElem nonempty
  rw [← h.stacked.first hline, strokesAt, List.getElem?_map, Option.map_eq_some_iff]
  simp [StrokeAt, charAt?, hline]

theorem strokeAt_bottom_iff (h : Drawing lines ends) (hrow : row + 1 = lines.length) :
    StrokeAt lines ⟨row, column, .down⟩ ↔ ends[column]? = some true := by
  have hline : lines[row]? = some lines[row] := List.getElem?_eq_getElem (by omega)
  have hnone : lines[row + 1]? = none := List.getElem?_eq_none (by omega)
  rw [← h.stacked.last hline hnone, strokesAt, List.getElem?_map, Option.map_eq_some_iff]
  simp [StrokeAt, charAt?, hline]

/-- **Strokes leave a drawing at its ends only**: above the first line and
below the last one, where `ends` tells. -/
theorem leaves_iff (h : Drawing lines ends) (nonempty : 0 < lines.length) :
    (StrokeAt lines p ∧ ∀ q, p.Faces q → ¬InText lines q) ↔
      ends[p.column]? = some true ∧
        (p.side = .up ∧ p.row = 0 ∨ p.side = .down ∧ p.row + 1 = lines.length) := by
  obtain ⟨row, column, side⟩ := p
  constructor
  · intro hp
    obtain ⟨stroke, outside⟩ := hp
    obtain ⟨hrow, hcolumn⟩ : row < lines.length ∧ column < ends.length :=
      h.inText_iff.mp stroke.inText
    cases side with
    | up =>
      cases row with
      | zero => exact ⟨(h.strokeAt_top_iff nonempty).mp stroke, .inl ⟨rfl, rfl⟩⟩
      | succ row =>
        refine absurd (h.inText_iff.mpr ?_) (outside ⟨row, column, .down⟩ ⟨rfl, rfl⟩)
        exact ⟨Nat.lt_of_succ_lt hrow, hcolumn⟩
    | down =>
      by_cases hlast : row + 1 = lines.length
      · exact ⟨(h.strokeAt_bottom_iff hlast).mp stroke, .inr ⟨rfl, hlast⟩⟩
      · refine absurd (h.inText_iff.mpr ?_) (outside _ (Port.faces_below row column))
        exact ⟨Nat.lt_of_le_of_ne hrow hlast, hcolumn⟩
    | left =>
      cases column with
      | zero => exact absurd stroke h.not_strokeAt_left
      | succ column =>
        refine absurd (h.inText_iff.mpr ?_) (outside ⟨row, column, .right⟩ ⟨rfl, rfl⟩)
        exact ⟨hrow, Nat.lt_of_succ_lt hcolumn⟩
    | right =>
      by_cases hlast : column + 1 < ends.length
      · exact absurd (h.inText_iff.mpr ⟨hrow, hlast⟩) (outside _ (Port.faces_right row column))
      · exact absurd stroke (h.not_strokeAt_right (Nat.le_of_not_lt hlast))
  · intro hp
    obtain ⟨marked, ⟨hside, hrow⟩ | ⟨hside, hrow⟩⟩ := hp
    · cases hside
      cases hrow
      exact ⟨(h.strokeAt_top_iff nonempty).mpr marked,
        fun q faces => absurd faces Port.not_faces_up_zero⟩
    · cases hside
      have hrow : row + 1 = lines.length := hrow
      refine ⟨(h.strokeAt_bottom_iff hrow).mpr marked, fun q faces hq => ?_⟩
      have inside : q.row < lines.length := (h.inText_iff.mp hq).1
      rw [faces.row_eq_succ, hrow] at inside
      exact absurd inside (Nat.lt_irrefl _)

end Drawing

end SeriesParallel
