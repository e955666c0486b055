import SeriesParallel.Proofs.Schematic.Glyphs

/-!
# Schematic — the middle of a cell

Cells stay in line because each of their lines is as wide as the column, and a
vertical wire runs through the middle character of it. The label of a resistor
may hold any character; the rest of the line says nothing but the wire.

A box needs room for a corner on either side of its wire. The width of a
resistor counts its label and two more, so a resistor without a label is given
two columns and needs three.
-/

namespace SeriesParallel

/-! ## Marks on a line -/

/-- Whether a character is the mark of a vertical wire. -/
def isWireMark (c : Char) : Bool :=
  c ∈ ['│', '┼', '┴', '┬', '┤', '├', '┘', '┐', '└', '┌', '╧', '╤']

/-- Characters without the mark of a vertical wire. -/
def Unmarked (line : List Char) : Prop := ∀ c ∈ line, isWireMark c = false

theorem Unmarked.nil : Unmarked [] := fun _ hc => absurd hc List.not_mem_nil

theorem Unmarked.replicate {c : Char} (h : isWireMark c = false) (n : Nat) :
    Unmarked (List.replicate n c) := by
  intro d hd
  rw [List.eq_of_mem_replicate hd]
  exact h

theorem Unmarked.cons {c : Char} {line : List Char} (hc : isWireMark c = false)
    (h : Unmarked line) : Unmarked (c :: line) := List.forall_mem_cons.mpr ⟨hc, h⟩

theorem Unmarked.append {line line' : List Char} (h : Unmarked line) (h' : Unmarked line') :
    Unmarked (line ++ line') := List.forall_mem_append.mpr ⟨h, h'⟩

theorem Unmarked.not_mark {cs : List Char} (h : Unmarked cs) {i : Nat} {c : Char}
    (hc : cs[i]? = some c) : ¬isWireMark c :=
  Bool.not_eq_true _ ▸ h c (List.mem_of_getElem? hc)

/-- A mark between unmarked characters is where the characters between them are. -/
theorem mark_between {before inside after : List Char} (hbefore : Unmarked before)
    (hafter : Unmarked after) {i : Nat} {c : Char}
    (h : (before ++ (inside ++ after))[i]? = some c) (hc : isWireMark c) :
    before.length ≤ i ∧ inside[i - before.length]? = some c := by
  rcases Nat.lt_or_ge i before.length with hlt | behind
  · rw [List.getElem?_append_left hlt] at h
    exact absurd hc (hbefore.not_mark h)
  · rw [List.getElem?_append_right behind] at h
    rcases Nat.lt_or_ge (i - before.length) inside.length with hlt | beyond
    · rw [List.getElem?_append_left hlt] at h
      exact ⟨behind, h⟩
    · rw [List.getElem?_append_right beyond] at h
      exact absurd hc (hafter.not_mark h)

/-- A line of a width with a glyph in its middle, if it has one. It has no other
mark of a vertical wire, unless among the `given` characters behind its first. -/
structure Centred (width : Nat) (glyph? : Option Char) (given : Nat) (cs : List Char) :
    Prop where
  length_eq : cs.length = width
  glyph_eq : ∀ g ∈ glyph?, cs[middle width]? = some g
  mark : ∀ i c, cs[i]? = some c → isWireMark c →
    (i = middle width ∧ glyph? = some c) ∨ (1 ≤ i ∧ i ≤ given)

section

variable {width : Nat} {left right : Bool} {glyph corner corner' : Char} {label : String}

theorem centred_of_glyph {before after : List Char} (hbefore : Unmarked before)
    (hafter : Unmarked after) (hmiddle : before.length = middle width)
    (hwidth : before.length + 1 + after.length = width) :
    Centred width (some glyph) 0 (before ++ glyph :: after) where
  length_eq := by
    rw [List.length_append, List.length_cons]
    omega
  glyph_eq := by
    rintro g ⟨⟩
    rw [← hmiddle, List.getElem?_append_right (Nat.le_refl _), Nat.sub_self,
      List.getElem?_cons_zero]
  mark := by
    intro i c h hc
    obtain ⟨behind, hglyph⟩ : before.length ≤ i ∧ [glyph][i - before.length]? = some c :=
      mark_between hbefore hafter h hc
    rw [List.getElem?_singleton] at hglyph
    split at hglyph
    · exact .inl ⟨by omega, hglyph⟩
    · cases hglyph

theorem centred_blankLine (width : Nat) : Centred width none 0 (blankLine width) where
  length_eq := List.length_replicate
  glyph_eq := nofun
  mark := by
    intro i c h hc
    exact absurd hc (Unmarked.not_mark (.replicate rfl width) h)

theorem centred_railLine (h : 0 < width) :
    Centred width (some glyph) 0 (railLine left glyph right width) := by
  have unmarked (wired : Bool) (n : Nat) :
      Unmarked (List.replicate n (if wired then '─' else ' ')) := by
    cases wired <;> exact .replicate rfl n
  have hlt := middle_lt h
  refine centred_of_glyph (unmarked left _) (unmarked right _) List.length_replicate ?_
  rw [List.length_replicate, List.length_replicate]
  omega

/-- A line with a vertical wire or nothing. -/
theorem centred_wireLineIf {wired : Bool} (h : wired → 0 < width) :
    Centred width (if wired then some '│' else none) 0 (wireLineIf wired width) := by
  cases wired with
  | true => exact centred_railLine (h rfl)
  | false => exact centred_blankLine width

/-- The edge of a box has room for two corners beside the wire. -/
theorem centred_boxEdge (h : 3 ≤ width) (hcorner : isWireMark corner = false)
    (hcorner' : isWireMark corner' = false) :
    Centred width (some glyph) 0 (boxEdge corner glyph corner' width) := by
  have edge (n : Nat) : Unmarked (List.replicate n '═') := .replicate rfl n
  have hmiddle : 1 ≤ middle width ∧ middle width + 2 ≤ width := by
    unfold middle
    omega
  have parts : boxEdge corner glyph corner' width =
      (corner :: List.replicate (middle width - 1) '═') ++
        glyph :: (List.replicate (width - (middle width + 2)) '═' ++ [corner']) := by
    rw [boxEdge, List.append_assoc]
    rfl
  rw [parts]
  refine centred_of_glyph (.cons hcorner (edge _)) ((edge _).append (.cons hcorner' .nil)) ?_ ?_
  · rw [List.length_cons, List.length_replicate]
    omega
  · rw [List.length_cons, List.length_append, List.length_singleton, List.length_replicate,
      List.length_replicate]
    omega

/-- The line of a label, whatever the characters of the label are. -/
theorem centred_nameLine (h : 2 + label.length ≤ width) :
    Centred width none label.length (nameLine label width) where
  length_eq := by
    rw [nameLine, List.length_append, List.length_cons, List.length_append, String.length_toList,
      List.length_replicate, List.length_singleton]
    omega
  glyph_eq := nofun
  mark := by
    intro i c hi hc
    have wall : Unmarked ['║'] := .cons rfl .nil
    have blank (n : Nat) : Unmarked (List.replicate n ' ') := .replicate rfl n
    rw [nameLine, List.cons_append, List.append_assoc] at hi
    obtain ⟨behind, name⟩ := mark_between wall ((blank _).append wall) hi hc
    obtain ⟨within, -⟩ := List.getElem?_eq_some_iff.mp name
    rw [List.length_singleton] at behind within
    rw [String.length_toList] at within
    exact .inr ⟨behind, by omega⟩

end

/-! ## Cells -/

namespace Cell

/-- The mark of the wire that leaves a cell upwards. -/
def markAbove? (cell : Cell) : Option Char :=
  if cell.hasPort .up then some (if cell.isResistor then '╧' else '│') else none

/-- The mark of the wire that leaves a cell downwards. -/
def markBelow? (cell : Cell) : Option Char :=
  if cell.hasPort .down then some (if cell.isResistor then '╤' else '│') else none

/-- The glyph in the middle of a cell. -/
def glyph? : Cell → Option Char
  | empty | resistor _ => none
  | wire => some '│'
  | split j => some (splitGlyph j)
  | merge j => some (mergeGlyph j)
  | rail left right tap => some (railGlyph left right tap)

/-- The number of characters that are not drawn but given. -/
def given : Cell → Nat
  | resistor label => label.length
  | _ => 0

/-- A cell draws to a column: each line is as wide as the column, and the marks
of its wire are in the middle. -/
structure DrawnTo (cell : Cell) (width : Nat) : Prop where
  top : Centred width cell.markAbove? 0 (cell.draw width).top
  middle : Centred width cell.glyph? cell.given (cell.draw width).middle
  bottom : Centred width cell.markBelow? 0 (cell.draw width).bottom

theorem drawnTo_resistor {label : String} {width : Nat} (h : 2 + label.length ≤ width)
    (three_le : 3 ≤ width) : (resistor label).DrawnTo width where
  top := centred_boxEdge three_le rfl rfl
  middle := centred_nameLine h
  bottom := centred_boxEdge three_le rfl rfl

/-- In its own width a box without a label has a third character in its edges. -/
theorem not_drawnTo_unlabelled : ¬(resistor "").DrawnTo 2 := by
  intro h
  exact absurd h.top.length_eq (by decide)

/-- **Cells draw to their columns**, in any width from their own on, but for a
resistor without a label in a column of two characters. -/
theorem drawnTo_iff {cell : Cell} {width : Nat} (h : cell.width ≤ width) :
    cell.DrawnTo width ↔ ¬(cell = resistor "" ∧ width = 2) := by
  constructor
  · rintro drawn ⟨rfl, rfl⟩
    exact not_drawnTo_unlabelled drawn
  · intro excepted
    cases cell with
    | empty => exact ⟨centred_blankLine width, centred_blankLine width, centred_blankLine width⟩
    | wire => exact ⟨centred_railLine h, centred_railLine h, centred_railLine h⟩
    | split j =>
      exact ⟨centred_railLine h, centred_railLine h, centred_wireLineIf fun _ => h⟩
    | merge j =>
      exact ⟨centred_wireLineIf fun _ => h, centred_railLine h, centred_railLine h⟩
    | rail left right tap =>
      exact ⟨centred_wireLineIf fun _ => h, centred_railLine h, centred_wireLineIf fun _ => h⟩
    | resistor label =>
      have room : 2 + label.length ≤ width := h
      rcases Nat.lt_or_ge width 3 with narrow | three_le
      · have unlabelled : label = "" := String.length_eq_zero_iff.mp (by omega)
        exact absurd ⟨by rw [unlabelled], by omega⟩ excepted
      · exact drawnTo_resistor room three_le

theorem drawnTo_iff_spareWidth : (resistor "AB").DrawnTo 7 :=
  (drawnTo_iff (by decide)).mpr (by decide)

/-- The box of a resistor without a label is wider than its column. -/
theorem exists_draw_too_wide : ∃ (cell : Cell) (width : Nat), cell.width ≤ width ∧
    ∃ line ∈ (cell.draw width).lines, width < line.length :=
  ⟨resistor "", 2, by decide, "╔╧╗".toList, by decide, by decide⟩

end Cell

end SeriesParallel
