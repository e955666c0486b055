import SeriesParallel.Proofs.Schematic.Strokes

/-!
# Schematic — cells as they are drawn

The three lines of a cell show its ports: the strokes of the middle line reach
the left and the right end where the cell has ports there, and the strokes
above and below the cell are those of its ports at the top and the bottom, in
the middle of its width. So cells with matching ports can stand side by side,
and their widths do not matter.
-/

namespace SeriesParallel

/-! ## The middle of a width -/

/-- The strokes of a width that one wire in the middle may cross. -/
def pulse (wired : Bool) (width : Nat) : List Bool :=
  if wired then
    List.replicate (middle width) false ++
      true :: List.replicate (width - (middle width + 1)) false
  else List.replicate width false

theorem middle_lt {width : Nat} (h : 0 < width) : middle width < width := by
  unfold middle
  omega

theorem pulse_eq (wired : Bool) {width : Nat} (h : 0 < width) :
    pulse wired width = List.replicate (middle width) false ++
      wired :: List.replicate (width - (middle width + 1)) false := by
  cases wired with
  | true => rfl
  | false =>
    have hlt := middle_lt h
    have hwidth : width = middle width + (width - (middle width + 1) + 1) := by omega
    rw [← List.replicate_succ, List.replicate_append_replicate, ← hwidth]
    rfl

theorem length_pulse {wired : Bool} {width : Nat} (h : wired → 0 < width) :
    (pulse wired width).length = width := by
  cases wired with
  | false => exact List.length_replicate
  | true =>
    have hlt := middle_lt (h rfl)
    rw [pulse, if_pos rfl, List.length_append, List.length_cons, List.length_replicate,
      List.length_replicate]
    omega

/-! ## Lines -/

/-- Characters that stand neither for a missing glyph nor for the end of a line. -/
def Clean (line : List Char) : Prop := ∀ c ∈ line, c ≠ '?' ∧ c ≠ '\n'

theorem Clean.nil : Clean [] := fun _ hc => absurd hc List.not_mem_nil

theorem Clean.cons {c : Char} {line : List Char} (hc : c ≠ '?' ∧ c ≠ '\n') (h : Clean line) :
    Clean (c :: line) := List.forall_mem_cons.mpr ⟨hc, h⟩

theorem Clean.append {line line' : List Char} (h : Clean line) (h' : Clean line') :
    Clean (line ++ line') := fun c hc => (List.mem_append.mp hc).elim (h c) (h' c)

theorem Clean.replicate {c : Char} (h : c ≠ '?' ∧ c ≠ '\n') (n : Nat) :
    Clean (List.replicate n c) := by
  intro d hd
  rw [List.eq_of_mem_replicate hd]
  exact h

/-- A character with a stroke is clean. -/
theorem clean_of_hasStroke {c : Char} {side : Side} (h : hasStroke c side) :
    c ≠ '?' ∧ c ≠ '\n' := by
  constructor
  · intro hc
    rw [hc] at h
    exact Bool.false_ne_true h
  · intro hc
    rw [hc] at h
    exact Bool.false_ne_true h

/-- The sides that the wire of a cell crosses lines at. -/
def Side.Vertical (side : Side) : Prop := side = .up ∨ side = .down

section

variable {left right wired : Bool} {glyph : Char} {side : Side} {width : Nat}

theorem strokesAt_railLine (hside : side.Vertical) (h : 0 < width) :
    strokesAt side (railLine left glyph right width) = pulse (hasStroke glyph side) width := by
  have fill (wired : Bool) : hasStroke (if wired then '─' else ' ') side = false := by
    rcases hside with rfl | rfl <;> cases wired <;> rfl
  rw [pulse_eq _ h, strokesAt, railLine, List.map_append, List.map_cons, List.map_replicate,
    List.map_replicate, fill, fill]

theorem wired_railLine (hleft : hasStroke glyph .left = left)
    (hright : hasStroke glyph .right = right) :
    Wired left (railLine left glyph right width) right := by
  have fill (wired : Bool) (n : Nat) :
      Wired wired (List.replicate n (if wired then '─' else ' ')) wired := by
    cases wired with
    | false => exact .replicate (c := ' ') rfl rfl n
    | true => exact .replicate (c := '─') rfl rfl n
  refine (fill left _).append (.cons hleft ?_)
  rw [hright]
  exact fill right _

theorem clean_railLine (h : glyph ≠ '?' ∧ glyph ≠ '\n') :
    Clean (railLine left glyph right width) := by
  have fill (wired : Bool) (n : Nat) : Clean (List.replicate n (if wired then '─' else ' ')) := by
    cases wired <;> exact .replicate (by decide) n
  exact (fill left _).append (.cons h (fill right _))

theorem strokesAt_blankLine (side : Side) (width : Nat) :
    strokesAt side (blankLine width) = pulse false width := by
  cases side <;> exact List.map_replicate

theorem strokesAt_wireLineIf (hside : side.Vertical) (h : 0 < width) :
    strokesAt side (wireLineIf wired width) = pulse wired width := by
  cases wired with
  | false => exact strokesAt_blankLine side width
  | true =>
    refine (strokesAt_railLine hside h).trans ?_
    rcases hside with rfl | rfl <;> rfl

theorem wired_blankLine (width : Nat) : Wired false (blankLine width) false :=
  .replicate (c := ' ') rfl rfl width

theorem wired_wireLineIf : Wired false (wireLineIf wired width) false := by
  cases wired with
  | false => exact wired_blankLine width
  | true => exact wired_railLine rfl rfl

theorem clean_blankLine (width : Nat) : Clean (blankLine width) := .replicate (by decide) width

theorem clean_wireLineIf : Clean (wireLineIf wired width) := by
  cases wired with
  | false => exact clean_blankLine width
  | true => exact clean_railLine (by decide)

end

/-! ## Strips -/

theorem Strip.forall_mem_lines {P : List Char → Prop} {s : Strip} :
    (∀ line ∈ s.lines, P line) ↔ P s.top ∧ P s.middle ∧ P s.bottom := by
  simp [lines]

/-- A strip shows ports: its strokes meet, those that reach its left and its
right end are in the middle line, and it crosses `above` and `below`. -/
structure Strip.Draws (s : Strip) (left right : Bool) (above below : List Bool) : Prop where
  top : Wired false s.top false
  middle : Wired left s.middle right
  bottom : Wired false s.bottom false
  stacked : Stacked above s.lines below
  clean : ∀ line ∈ s.lines, Clean line

/-- Strips side by side. -/
def Strip.beside (s t : Strip) : Strip :=
  ⟨s.top ++ t.top, s.middle ++ t.middle, s.bottom ++ t.bottom⟩

namespace Strip.Draws

variable {s t : Strip} {left mid right : Bool} {above below above' below' : List Bool}

/-- The lines of a strip without ports at its ends. -/
theorem wired (h : s.Draws false false above below) : ∀ line ∈ s.lines, Wired false line false :=
  forall_mem_lines.mpr ⟨h.top, h.middle, h.bottom⟩

theorem above_eq (h : s.Draws left right above below) : strokesAt .up s.top = above :=
  h.stacked.1

theorem below_eq (h : s.Draws left right above below) : strokesAt .down s.bottom = below :=
  h.stacked.2.2.2

theorem empty (left : Bool) : Strip.Draws ⟨[], [], []⟩ left left [] [] where
  top := rfl
  middle := rfl
  bottom := rfl
  stacked := ⟨rfl, rfl, rfl, rfl⟩
  clean := forall_mem_lines.mpr ⟨.nil, .nil, .nil⟩

/-- **Strips with matching ports stand side by side.** -/
theorem beside (h : s.Draws left mid above below) (h' : t.Draws mid right above' below') :
    (s.beside t).Draws left right (above ++ above') (below ++ below') where
  top := h.top.append h'.top
  middle := h.middle.append h'.middle
  bottom := h.bottom.append h'.bottom
  stacked := by
    obtain ⟨rfl, upper, lower, rfl⟩ := h.stacked
    obtain ⟨rfl, upper', lower', rfl⟩ := h'.stacked
    refine ⟨List.map_append, ?_, ?_, List.map_append⟩
    · show strokesAt .up (s.middle ++ t.middle) = strokesAt .down (s.top ++ t.top)
      rw [strokesAt, List.map_append, ← strokesAt, ← strokesAt, upper, upper']
      exact List.map_append.symm
    · show strokesAt .up (s.bottom ++ t.bottom) = strokesAt .down (s.middle ++ t.middle)
      rw [strokesAt, List.map_append, ← strokesAt, ← strokesAt, lower, lower']
      exact List.map_append.symm
  clean := by
    obtain ⟨top, mid, bottom⟩ := forall_mem_lines.mp h.clean
    obtain ⟨top', mid', bottom'⟩ := forall_mem_lines.mp h'.clean
    exact forall_mem_lines.mpr ⟨top.append top', mid.append mid', bottom.append bottom'⟩

end Strip.Draws

/-! ## Glyphs show ports -/

theorem hasStroke_splitGlyph {j : Junction} (h : j.left ∨ j.right) (side : Side) :
    hasStroke (splitGlyph j) side = (Cell.split j).hasPort side := by
  obtain ⟨left, right, straight⟩ := j
  cases left <;> cases right <;> cases straight <;> cases side <;> first | rfl | simp at h

theorem hasStroke_mergeGlyph {j : Junction} (h : j.left ∨ j.right) (side : Side) :
    hasStroke (mergeGlyph j) side = (Cell.merge j).hasPort side := by
  obtain ⟨left, right, straight⟩ := j
  cases left <;> cases right <;> cases straight <;> cases side <;> first | rfl | simp at h

/-- A horizontal wire ends at taps only. -/
theorem hasStroke_railGlyph {left right : Bool} {tap : Tap} (h : left ∨ right)
    (hnone : tap = .none → left ∧ right) (side : Side) :
    hasStroke (railGlyph left right tap) side = (Cell.rail left right tap).hasPort side := by
  cases left <;> cases right <;> cases tap <;> cases side <;> first | rfl | simp at h hnone

/-- A glyph that shows the ports of a cell, between wires that lead to them. -/
theorem draws_railLine {cell : Cell} {glyph : Char} {width : Nat} (hwidth : 0 < width)
    (shows : ∀ side, hasStroke glyph side = cell.hasPort side)
    (port : ∃ side, cell.hasPort side) :
    Strip.Draws ⟨wireLineIf (cell.hasPort .up) width,
      railLine (cell.hasPort .left) glyph (cell.hasPort .right) width,
      wireLineIf (cell.hasPort .down) width⟩ (cell.hasPort .left) (cell.hasPort .right)
      (pulse (cell.hasPort .up) width) (pulse (cell.hasPort .down) width) where
  top := wired_wireLineIf
  middle := wired_railLine (shows .left) (shows .right)
  bottom := wired_wireLineIf
  stacked := by
    refine ⟨strokesAt_wireLineIf (.inl rfl) hwidth, ?_, ?_,
      strokesAt_wireLineIf (.inr rfl) hwidth⟩
    · rw [strokesAt_railLine (.inl rfl) hwidth, strokesAt_wireLineIf (.inr rfl) hwidth, shows]
    · rw [strokesAt_railLine (.inr rfl) hwidth, strokesAt_wireLineIf (.inl rfl) hwidth, shows]
  clean := by
    obtain ⟨side, hport⟩ := port
    have glyph_clean := clean_of_hasStroke ((shows side).trans hport)
    exact Strip.forall_mem_lines.mpr
      ⟨clean_wireLineIf, clean_railLine glyph_clean, clean_wireLineIf⟩

/-! ## Boxes -/

section

variable {width : Nat} {side : Side} {corner glyph corner' : Char} {label : String}

/-- A horizontal edge of a box, between two corners, with a glyph in the middle. -/
def boxEdge (corner glyph corner' : Char) (width : Nat) : List Char :=
  corner :: List.replicate (middle width - 1) '═' ++
    glyph :: List.replicate (width - (middle width + 2)) '═' ++ [corner']

/-- The strokes of two vertical edges. -/
def walls (width : Nat) : List Bool := true :: List.replicate (width - 2) false ++ [true]

theorem strokesAt_boxEdge (hside : side.Vertical) :
    strokesAt side (boxEdge corner glyph corner' width) =
      hasStroke corner side :: List.replicate (middle width - 1) false ++
        hasStroke glyph side :: List.replicate (width - (middle width + 2)) false ++
          [hasStroke corner' side] := by
  have edge : hasStroke '═' side = false := by rcases hside with rfl | rfl <;> rfl
  simp [strokesAt, boxEdge, edge]

/-- An edge towards the inside of the box. -/
theorem strokesAt_boxEdge_inside (hside : side.Vertical) (h : 3 ≤ width)
    (hcorner : hasStroke corner side) (hglyph : hasStroke glyph side = false)
    (hcorner' : hasStroke corner' side) :
    strokesAt side (boxEdge corner glyph corner' width) = walls width := by
  have hwidth : width - 2 = middle width - 1 + (width - (middle width + 2) + 1) := by
    unfold middle
    omega
  rw [strokesAt_boxEdge hside, hcorner, hglyph, hcorner', walls, hwidth,
    ← List.replicate_append_replicate, List.replicate_succ]
  rfl

/-- An edge towards the outside of the box, where the wire goes on. -/
theorem strokesAt_boxEdge_outside (hside : side.Vertical) (h : 3 ≤ width)
    (hcorner : hasStroke corner side = false) (hglyph : hasStroke glyph side)
    (hcorner' : hasStroke corner' side = false) :
    strokesAt side (boxEdge corner glyph corner' width) = pulse true width := by
  have before : middle width = middle width - 1 + 1 := by
    unfold middle
    omega
  have after : width - (middle width + 1) = width - (middle width + 2) + 1 := by
    unfold middle
    omega
  rw [strokesAt_boxEdge hside, hcorner, hglyph, hcorner', pulse, if_pos rfl, after,
    List.replicate_succ', ← List.replicate_succ, ← before, List.append_assoc, List.cons_append]

theorem wired_boxEdge (hcorner : hasStroke corner .left = false) (hright : hasStroke corner .right)
    (glyph_left : hasStroke glyph .left) (glyph_right : hasStroke glyph .right)
    (hleft : hasStroke corner' .left) (hcorner' : hasStroke corner' .right = false) :
    Wired false (boxEdge corner glyph corner' width) false := by
  have edge (n : Nat) : Wired true (List.replicate n '═') true :=
    .replicate (c := '═') rfl rfl n
  refine .append (.append (.cons hcorner ?_) (.cons glyph_left ?_)) ⟨hleft, hcorner'⟩
  · rw [hright]
    exact edge _
  · rw [glyph_right]
    exact edge _

theorem clean_boxEdge (hcorner : corner ≠ '?' ∧ corner ≠ '\n') (hglyph : glyph ≠ '?' ∧ glyph ≠ '\n')
    (hcorner' : corner' ≠ '?' ∧ corner' ≠ '\n') :
    Clean (boxEdge corner glyph corner' width) := by
  have edge (n : Nat) : Clean (List.replicate n '═') := .replicate (by decide) n
  exact .append (.append (.cons hcorner (edge _)) (.cons hglyph (edge _)))
    (.cons hcorner' .nil)

/-! ### The line of the label -/

/-- Capital letters have no strokes. -/
theorem strokes_eq_nil_of_isUpper {c : Char} (h : c.isUpper) : strokes c = [] := by
  unfold strokes
  split <;> first | rfl | exact absurd h (by decide)

theorem clean_of_isUpper {c : Char} (h : c.isUpper) : c ≠ '?' ∧ c ≠ '\n' := by
  constructor
  · rintro rfl
    exact absurd h (by decide)
  · rintro rfl
    exact absurd h (by decide)

/-- The line of a box that shows a label, between the vertical edges. -/
def nameLine (label : String) (width : Nat) : List Char :=
  '║' :: (label.toList ++ List.replicate (width - 2 - label.length) ' ') ++ ['║']

theorem isUpper_or_blank_of_mem_name {c : Char} {n : Nat} (h : ∀ c ∈ label.toList, c.isUpper)
    (hc : c ∈ label.toList ++ List.replicate n ' ') : c.isUpper ∨ c = ' ' :=
  (List.mem_append.mp hc).imp (h c) List.eq_of_mem_replicate

theorem strokesAt_nameLine (hside : side.Vertical) (hwidth : 2 + label.length ≤ width)
    (h : ∀ c ∈ label.toList, c.isUpper) : strokesAt side (nameLine label width) = walls width := by
  have wall : hasStroke '║' side = true := by rcases hside with rfl | rfl <;> rfl
  have name : strokesAt side (label.toList ++ List.replicate (width - 2 - label.length) ' ') =
      List.replicate (width - 2) false := by
    refine List.eq_replicate_iff.mpr ⟨?_, fun b hb => ?_⟩
    · rw [length_strokesAt, List.length_append, List.length_replicate, String.length_toList]
      omega
    · obtain ⟨c, hc, rfl⟩ := List.mem_map.mp hb
      rw [hasStroke]
      rcases isUpper_or_blank_of_mem_name h hc with hc | rfl
      · rw [strokes_eq_nil_of_isUpper hc]
        rfl
      · rfl
  rw [nameLine, strokesAt, List.map_append, List.map_cons, ← strokesAt, name, List.map_singleton,
    wall]
  rfl

theorem wired_nameLine (h : ∀ c ∈ label.toList, c.isUpper) :
    Wired false (nameLine label width) false := by
  refine .append (.cons rfl (.blank fun c hc => ?_)) ⟨rfl, rfl⟩
  rcases isUpper_or_blank_of_mem_name h hc with hc | rfl
  · exact strokes_eq_nil_of_isUpper hc
  · rfl

theorem clean_nameLine (h : ∀ c ∈ label.toList, c.isUpper) : Clean (nameLine label width) := by
  refine .append (.cons (by decide) fun c hc => ?_) (.cons (by decide) .nil)
  rcases isUpper_or_blank_of_mem_name h hc with hc | rfl
  · exact clean_of_isUpper hc
  · decide

/-- **A box shows the wires at its top and its bottom.** -/
theorem draws_box (hwidth : 2 + label.length ≤ width) (hlabel : 0 < label.length)
    (h : ∀ c ∈ label.toList, c.isUpper) :
    (Cell.box label width).Draws false false (pulse true width) (pulse true width) where
  top := wired_boxEdge rfl rfl rfl rfl rfl rfl
  middle := wired_nameLine h
  bottom := wired_boxEdge rfl rfl rfl rfl rfl rfl
  stacked := by
    have three_le : 3 ≤ width := by omega
    refine ⟨?_, ?_, ?_, ?_⟩
    · exact strokesAt_boxEdge_outside (.inl rfl) three_le rfl rfl rfl
    · exact (strokesAt_nameLine (.inl rfl) hwidth h).trans
        (strokesAt_boxEdge_inside (.inr rfl) three_le rfl rfl rfl).symm
    · exact (strokesAt_boxEdge_inside (.inl rfl) three_le rfl rfl rfl).trans
        (strokesAt_nameLine (.inr rfl) hwidth h).symm
    · exact strokesAt_boxEdge_outside (.inr rfl) three_le rfl rfl rfl
  clean := Strip.forall_mem_lines.mpr
    ⟨clean_boxEdge (by decide) (by decide) (by decide), clean_nameLine h,
      clean_boxEdge (by decide) (by decide) (by decide)⟩

end

/-! ## Cells -/

/-- What a cell needs to be drawn: a junction has a wire to a side, a horizontal
wire does not end but at a tap, and a label is a word of capital letters. -/
def Cell.Drawable : Cell → Prop
  | split j | merge j => j.left ∨ j.right
  | rail left right tap => (left ∨ right) ∧ (tap = .none → left ∧ right)
  | resistor label => 0 < label.length ∧ ∀ c ∈ label.toList, c.isUpper
  | empty | wire => True

/-- A cell with a port needs a column of some width. -/
theorem Cell.width_pos {cell : Cell} {side : Side} (h : cell.hasPort side) : 0 < cell.width := by
  cases cell with
  | empty => exact absurd h Bool.false_ne_true
  | resistor label =>
    show 0 < 2 + label.length
    omega
  | wire | split j | merge j | rail left right tap => exact Nat.one_pos

/-- **A drawn cell shows its ports**, in any width from its own on. -/
theorem Cell.draws_draw {cell : Cell} {width : Nat} (h : cell.Drawable)
    (hwidth : cell.width ≤ width) :
    (cell.draw width).Draws (cell.hasPort .left) (cell.hasPort .right)
      (pulse (cell.hasPort .up) width) (pulse (cell.hasPort .down) width) := by
  cases cell with
  | empty =>
    refine ⟨wired_blankLine width, wired_blankLine width, wired_blankLine width, ?_, ?_⟩
    · exact ⟨strokesAt_blankLine .up width,
        (strokesAt_blankLine .up width).trans (strokesAt_blankLine .down width).symm,
        (strokesAt_blankLine .up width).trans (strokesAt_blankLine .down width).symm,
        strokesAt_blankLine .down width⟩
    · exact Strip.forall_mem_lines.mpr
        ⟨clean_blankLine width, clean_blankLine width, clean_blankLine width⟩
  | wire =>
    have shows (side : Side) : hasStroke '│' side = wire.hasPort side := by cases side <;> rfl
    exact draws_railLine hwidth shows ⟨.up, rfl⟩
  | split j => exact draws_railLine hwidth (hasStroke_splitGlyph h) ⟨.up, rfl⟩
  | merge j => exact draws_railLine hwidth (hasStroke_mergeGlyph h) ⟨.down, rfl⟩
  | rail left right tap =>
    have port : ∃ side, (rail left right tap).hasPort side :=
      h.1.elim (fun hleft => ⟨.left, hleft⟩) (fun hright => ⟨.right, hright⟩)
    exact draws_railLine hwidth (hasStroke_railGlyph h.1 h.2) port
  | resistor label => exact draws_box hwidth h.1 h.2

end SeriesParallel
