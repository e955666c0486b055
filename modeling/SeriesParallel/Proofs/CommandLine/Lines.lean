import SeriesParallel.CommandLine.Run
import SeriesParallel.Proofs.Topology.Symbols

/-!
# Command line — circuits on lines

Standard input lists circuits one on a line. The lines between them may be
blank, any line may end in a carriage return and a line feed or in a line feed
alone, and the last one need not end at all. However the lines are written, the
circuits that are read are those listed.
-/

namespace SeriesParallel.CommandLine

/-! ## Lines of a text -/

theorem pieces_ne_nil (cs : List Char) : pieces cs ≠ [] := by
  cases cs with
  | nil => exact List.cons_ne_nil _ _
  | cons c cs =>
    rw [pieces]
    split
    · exact List.cons_ne_nil _ _
    · split <;> exact List.cons_ne_nil _ _

/-- Characters in front of a text belong to its first piece, if none of them is a
line feed. -/
theorem pieces_append {cs ds p : List Char} {ps : List (List Char)} (h : '\n' ∉ cs)
    (hds : pieces ds = p :: ps) : pieces (cs ++ ds) = (cs ++ p) :: ps := by
  induction cs with
  | nil => exact hds
  | cons c cs ih =>
    obtain ⟨hc, hcs⟩ := List.ne_and_not_mem_of_not_mem_cons h
    rw [List.cons_append, pieces, if_neg hc.symm, ih hcs]
    rfl

/-- **A line is peeled off at its line feed.** -/
theorem linesOf_cons {cs : List Char} (h : '\n' ∉ cs) (text : List Char) :
    linesOf (cs ++ '\n' :: text) = dropReturn cs :: linesOf text := by
  have split : pieces (cs ++ '\n' :: text) = cs :: pieces text := by
    have end_of_line : pieces ('\n' :: text) = [] :: pieces text := by rw [pieces, if_pos rfl]
    rw [pieces_append h end_of_line, List.append_nil]
  obtain ⟨p, ps, hps⟩ := List.exists_cons_of_ne_nil (pieces_ne_nil text)
  rw [linesOf, linesOf, split, hps]
  rfl

/-- The ends that a line can have. -/
inductive LineEnd where
  | feed
  | returnAndFeed

/-- The text of a line end in front of its line feed. -/
def LineEnd.return? : LineEnd → List Char
  | feed => []
  | returnAndFeed => ['\r']

/-- A line ended by a line end. -/
def LineEnd.endLine (e : LineEnd) (line : List Char) : List Char := line ++ e.return? ++ ['\n']

/-- **A line is read without its end**, if it has no carriage return of its own there. -/
theorem dropReturn_append {line : List Char} (h : line.getLast? ≠ some '\r') (e : LineEnd) :
    dropReturn (line ++ e.return?) = line := by
  cases e with
  | feed => rw [LineEnd.return?, List.append_nil, dropReturn, if_neg h]
  | returnAndFeed =>
    rw [LineEnd.return?, dropReturn, if_pos List.getLast?_concat, List.dropLast_concat]

theorem linesOf_endLine {line : List Char} (h : '\n' ∉ line) (e : LineEnd) (text : List Char) :
    linesOf (e.endLine line ++ text) = dropReturn (line ++ e.return?) :: linesOf text := by
  have no_feed : '\n' ∉ line ++ e.return? := by
    cases e <;> simp [LineEnd.return?, h]
  rw [LineEnd.endLine, List.append_assoc, List.singleton_append, linesOf_cons no_feed]

/-! ## Blank lines and circuits -/

/-- White space on one line. -/
def IsBlankLine (cs : List Char) : Prop := (∀ c ∈ cs, Text.isBlank c) ∧ '\n' ∉ cs

/-- A circuit as it can be written on a line: it is not all white space, it has
no line feed, and it does not end in a carriage return. -/
structure IsNotation (circuit : String) : Prop where
  not_blank : ∃ c ∈ circuit.toList, Text.isBlank c = false
  one_line : '\n' ∉ circuit.toList
  no_return : circuit.toList.getLast? ≠ some '\r'

theorem trim_ne_nil {cs : List Char} (h : ∃ c ∈ cs, Text.isBlank c = false) :
    Text.trim cs ≠ [] := by
  obtain ⟨c, hc, hblank⟩ := h
  rcases Text.blank_or_eq_append cs with all_blank | ⟨bs, d, ds, rfl, hbs, hd⟩
  · rw [all_blank c hc] at hblank
    exact absurd hblank Bool.noConfusion
  · have kept := Text.dropEnd_append_cons hd [] ds
    rw [Text.trim_blanks_append hbs, Text.trim, List.dropWhile_cons_of_neg (by simp [hd]),
      Text.trimEnd, ← List.nil_append (d :: ds), kept]
    exact List.cons_ne_nil _ _

/-- The lines that are not blank. -/
def filled (lines : List (List Char)) : List (List Char) :=
  lines.filter fun l => !(Text.trim l).isEmpty

theorem filled_cons_of_blank {line : List Char} (h : ∀ c ∈ line, Text.isBlank c)
    (lines : List (List Char)) : filled (line :: lines) = filled lines := by
  rw [filled, List.filter_cons_of_neg (by simp [Text.trim_eq_nil_of_blank h]), filled]

theorem filled_cons {circuit : String} (h : IsNotation circuit) (lines : List (List Char)) :
    filled (circuit.toList :: lines) = circuit.toList :: filled lines := by
  rw [filled, List.filter_cons_of_pos (by simp [trim_ne_nil h.not_blank]), filled]

/-- A text without line feeds is the one line that lacks an end. It is not read
as a line when it is empty, but then it would be blank. -/
theorem filled_linesOf_of_not_mem {cs : List Char} (h : '\n' ∉ cs) :
    filled (linesOf cs) = filled [cs] := by
  have one : pieces cs = [cs] := by
    have nothing_behind : pieces [] = [[]] := rfl
    simpa using pieces_append h nothing_behind
  rw [linesOf, one]
  cases cs with
  | nil => rfl
  | cons c cs => rfl

/-- What is left of a blank line that is read is blank. -/
theorem isBlank_dropReturn {line : List Char} (h : ∀ c ∈ line, Text.isBlank c) (e : LineEnd) :
    ∀ c ∈ dropReturn (line ++ e.return?), Text.isBlank c := by
  have ended : ∀ c ∈ line ++ e.return?, Text.isBlank c := by
    refine List.forall_mem_append.mpr ⟨h, ?_⟩
    cases e with
    | feed => exact List.forall_mem_nil _
    | returnAndFeed => exact List.forall_mem_singleton.mpr rfl
  intro c hc
  rw [dropReturn] at hc
  split at hc
  · exact ended c ((List.dropLast_sublist _).subset hc)
  · exact ended c hc

/-- Texts that list circuits on lines: each circuit on a line of its own, in
order, and blank lines anywhere. The last line may lack its end. -/
inductive Lists : List Char → List String → Prop where
  | rest {line : List Char} (h : IsBlankLine line) : Lists line []
  | last (circuit : String) : Lists circuit.toList [circuit]
  | blank {line text : List Char} {circuits : List String} (h : IsBlankLine line) (e : LineEnd)
      (listed : Lists text circuits) : Lists (e.endLine line ++ text) circuits
  | circuit (circuit : String) (e : LineEnd) {text : List Char} {circuits : List String}
      (listed : Lists text circuits) :
      Lists (e.endLine circuit.toList ++ text) (circuit :: circuits)

/-- **The filled lines of a text are the circuits that it lists.** -/
theorem Lists.filled_eq {text : List Char} {circuits : List String} (h : Lists text circuits)
    (notations : ∀ c ∈ circuits, IsNotation c) :
    filled (linesOf text) = circuits.map String.toList := by
  induction h with
  | rest h => rw [filled_linesOf_of_not_mem h.2, filled_cons_of_blank h.1, List.map_nil, filled,
      List.filter_nil]
  | last circuit =>
    have only := notations circuit List.mem_cons_self
    rw [filled_linesOf_of_not_mem only.one_line, filled_cons only, List.map_singleton, filled,
      List.filter_nil]
  | blank h e listed ih =>
    rw [linesOf_endLine h.2, filled_cons_of_blank (isBlank_dropReturn h.1 e), ih notations]
  | circuit circuit e listed ih =>
    obtain ⟨first, others⟩ := List.forall_mem_cons.mp notations
    rw [linesOf_endLine first.one_line, dropReturn_append first.no_return, filled_cons first,
      ih others, List.map_cons]

/-- **The circuits of standard input are those that it lists.** -/
theorem circuitsOf?_toUTF8 {text : String} {circuits : List String}
    (h : Lists text.toList circuits) (notations : ∀ c ∈ circuits, IsNotation c) :
    circuitsOf? text.toUTF8 = some circuits := by
  have decoded : String.fromUTF8? text.toUTF8 = some text := by
    rw [String.fromUTF8?, String.toUTF8_eq_toByteArray, dif_pos text.isValidUTF8]
    rfl
  have read := h.filled_eq notations
  rw [circuitsOf?, decoded, Option.map_some, ← filled, read, List.map_map, List.map_congr_left,
    List.map_id]
  exact fun c _ => String.ofList_toList

end SeriesParallel.CommandLine
