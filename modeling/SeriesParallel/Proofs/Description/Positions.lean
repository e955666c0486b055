import SeriesParallel.Proofs.Description.Segments
import SeriesParallel.Proofs.Topology.Refusal
import SeriesParallel.Proofs.Topology.Shift
import SeriesParallel.Proofs.Topology.Tiling

/-!
# Description — where a line is refused

The header of a line, its name and its source, says where the topology starts.
Behind another header the same topology gives the same network, or it is
refused for the same cause at the same place behind the header. Wherever a line
is refused, the position is one in front of a character of the line, or its
end; line ends behind it do not count.
-/

namespace SeriesParallel

/-! ## Places in a text -/

/-- A failure is a malformation at a place in a text that starts at `position`. -/
def Failure.PointsInto (e : Failure Float) (position : Nat) (cs : List Char) : Prop :=
  ∃ before after cause, cs = before ++ after ∧
    e = .malformed (position + byteLength before) cause

namespace Failure.PointsInto

variable {e : Failure Float} {position : Nat} {cs ds : List Char}

/-- A place in a text is one in any text around it. -/
theorem append (h : e.PointsInto (position + byteLength ds) cs) (es : List Char) :
    e.PointsInto position (ds ++ (cs ++ es)) := by
  obtain ⟨before, after, cause, rfl, rfl⟩ := h
  refine ⟨ds ++ before, after ++ es, cause, by simp only [List.append_assoc], ?_⟩
  rw [byteLength_append, Nat.add_assoc]

/-- A place in a line is a byte position that no character straddles. -/
theorem isValid {line : String} (h : e.PointsInto 0 line.toList) :
    ∃ position cause, e = .malformed position cause ∧ position ≤ line.utf8ByteSize ∧
      (String.Pos.Raw.mk position).IsValid line := by
  obtain ⟨before, after, cause, hline, rfl⟩ := h
  have bytes : 0 + byteLength before = (String.ofList before).utf8ByteSize := by
    rw [Nat.zero_add, byteLength_eq]
  have line_eq : line = String.ofList before ++ String.ofList after := by
    rw [← String.ofList_append, ← hline, String.ofList_toList]
  rw [bytes]
  refine ⟨_, cause, rfl, ?_, ?_⟩
  · rw [line_eq, String.utf8ByteSize_append]
    exact Nat.le_add_right _ _
  · exact String.Pos.Raw.isValid_iff_exists_append.mpr ⟨_, _, line_eq, rfl⟩

end Failure.PointsInto

/-- **Every token of a text is at a place in it**, the end of the text included. -/
theorem Lexer.exists_append_of_mem_sequence {l : Lexer} {t : Token} (ht : t ∈ l.sequence) :
    ∃ before after, l.rest = before ++ after ∧ t.position = l.position + byteLength before := by
  rcases List.mem_append.mp ht with ht | ht
  · obtain ⟨before, after, hrest, hposition⟩ := l.tiles_tokens.exists_eq_append ht
    exact ⟨before, _, hrest, hposition⟩
  · cases List.mem_singleton.mp ht
    exact ⟨l.rest, [], (List.append_nil _).symm, rfl⟩

/-- **A topology is refused at a place in its text.** -/
theorem parseTopology_eq_error {text : String} {position : Nat} {e : Failure Float}
    (h : parseTopology text position = .error e) : e.PointsInto position text.toList := by
  obtain ⟨before, t, after, hsequence, -, cause, rfl⟩ :=
    TokenStream.parse_eq_error (fun _ => Lexer.symbol_ne_finish) h
  have ht : t ∈ (Lexer.ofString text position).sequence := by
    rw [show (Lexer.ofString text position).sequence = before ++ t :: after from hsequence]
    exact List.mem_append_right before List.mem_cons_self
  obtain ⟨cs, ds, htext, hposition⟩ := Lexer.exists_append_of_mem_sequence ht
  exact ⟨cs, ds, cause, htext, by rw [hposition]; rfl⟩

/-! ## Lines -/

/-- A line is what an input has in front of the line ends at its end. -/
structure IsLineOf (line input : String) : Prop where
  ends : ∃ ends : String, input = line ++ ends ∧ ∀ c ∈ ends.toList, isLineEnd c
  last : ∀ c ∈ line.toList.getLast?, isLineEnd c = false

/-- The line of an input. -/
def lineOf (input : String) : String := String.ofList (Text.dropEnd isLineEnd input.toList)

theorem isLineOf_lineOf (input : String) : IsLineOf (lineOf input) input := by
  obtain ⟨ends, hends, hinput⟩ := Text.exists_dropEnd_append isLineEnd input.toList
  refine ⟨⟨String.ofList ends, ?_, ?_⟩, ?_⟩
  · rw [lineOf, ← String.ofList_append, ← hinput, String.ofList_toList]
  · rw [String.toList_ofList]
    exact hends
  · rw [lineOf, String.toList_ofList]
    exact Text.getLast?_dropEnd isLineEnd input.toList

/-! ## Sources -/

namespace Supply

/-- The source of some kind whose magnitude is written at a position. -/
def ofMagnitude (kind : Float → Supply Float) (m : String) (position : Nat) :
    Except (Failure Float) (Supply Float) :=
  match readValue? m with
  | none => .error (.malformed position (.invalidSource m))
  | some x => if x.isFinite then .ok (kind x) else .error (.malformed position (.unboundedSource m))

/-- **A source is a mark of two bytes and a magnitude**, or it is of no kind. -/
theorem parse_cases (text : String) :
    (∃ kind mark m, text.toList = mark ++ m ∧ byteLength mark = 2 ∧
      ∀ position, parse text position = ofMagnitude kind (String.ofList m) (position + 2)) ∨
    ∀ position, parse text position = .error (.malformed position (.unknownSource text)) := by
  unfold parse
  split
  next m htext => exact .inl ⟨.voltage, ['V', '.'], m, htext, rfl, fun _ => rfl⟩
  next m htext => exact .inl ⟨.current, ['I', '.'], m, htext, rfl, fun _ => rfl⟩
  next => exact .inr fun _ => rfl

/-- A source is refused at its start, or where its magnitude is. -/
theorem parse_eq_error {text : String} {position : Nat} {e : Failure Float}
    (h : parse text position = .error e) : e.PointsInto position text.toList := by
  rcases parse_cases text with ⟨kind, mark, m, htext, bytes, read⟩ | refused
  · rw [read, ofMagnitude, ← bytes] at h
    split at h
    · cases h
      exact ⟨mark, m, _, htext, rfl⟩
    · split at h <;> cases h
      exact ⟨mark, m, _, htext, rfl⟩
  · cases h.symm.trans (refused position)
    exact ⟨[], text.toList, _, rfl, rfl⟩

/-- A source moves with its text. -/
theorem parse_shift (k : Nat) (text : String) (position : Nat) :
    parse text (position + k) = (parse text position).mapError (Failure.shift k) := by
  rcases parse_cases text with ⟨kind, mark, m, -, -, read⟩ | refused
  · rw [read, read, Nat.add_right_comm, ofMagnitude, ofMagnitude]
    split
    · rfl
    · split <;> rfl
  · rw [refused, refused]
    rfl

end Supply

/-! ## Headers -/

namespace Description

/-- What stands in front of a topology: a name and a source, a colon behind each.
The source is one that is read, at some position. -/
structure Header where
  name : String
  source : String
  supply : Supply Float
  not_mem_name : ':' ∉ name.toList
  not_mem_source : ':' ∉ source.toList
  accepted : ∃ position, Supply.parse source position = .ok supply

namespace Header

variable (h : Header)

/-- A header as it is written. -/
def text : String := h.name ++ ":" ++ h.source ++ ":"

/-- The source of a header is read wherever it stands. -/
theorem parse_source (position : Nat) : Supply.parse h.source position = .ok h.supply := by
  obtain ⟨p, hp⟩ := h.accepted
  have start : Supply.parse h.source 0 = .ok h.supply := by
    have moved := Supply.parse_shift p h.source 0
    rw [Nat.zero_add, hp] at moved
    cases read : Supply.parse h.source 0 with
    | error e =>
      rw [read] at moved
      cases moved
    | ok s =>
      rw [read] at moved
      cases moved
      rfl
  rw [← Nat.zero_add position, Supply.parse_shift, start]
  rfl

theorem segments (topology : String) :
    Segments (h.text ++ topology) h.name.toList h.source.toList
      (Text.dropEnd isLineEnd topology.toList) where
  line_eq := by
    have colon : isLineEnd ':' = false := by decide
    have written : (h.text ++ topology).toList
        = (h.name.toList ++ ':' :: h.source.toList) ++ ':' :: topology.toList := by
      simp [text, String.toList_append]
    rw [written, Text.dropEnd_append_cons colon, List.append_assoc, List.cons_append]
  not_mem_name := h.not_mem_name
  not_mem_source := h.not_mem_source

/-- **Behind a header, a line is its topology.** -/
theorem parse_eq (topology : String) : Description.parse (h.text ++ topology) =
    (parseTopology (lineOf topology) h.text.utf8ByteSize).map fun root => ⟨h.name, h.supply, root⟩ := by
  have start : byteLength h.name.toList + 1 + byteLength h.source.toList + 1
      = h.text.utf8ByteSize := by
    have colon : ":".utf8ByteSize = 1 := rfl
    simp only [text, byteLength_eq, String.ofList_toList, String.utf8ByteSize_append, colon]
  rw [(h.segments topology).parse_eq, String.ofList_toList, String.ofList_toList, h.parse_source,
    start, lineOf]
  cases parseTopology (String.ofList _) h.text.utf8ByteSize <;> rfl

end Header

/-- **A line is refused at a place in it.** -/
theorem parse_eq_error {input : String} {e : Failure Float} (h : parse input = .error e) :
    e.PointsInto 0 (Text.dropEnd isLineEnd input.toList) := by
  rcases segments_or_missing input with ⟨name, source, topology, segments⟩ | refused
  · have line : Text.dropEnd isLineEnd input.toList
        = (name ++ [':']) ++ (source ++ ':' :: topology) := by simp [segments.line_eq]
    have behind_name : byteLength name + 1 = 0 + byteLength (name ++ [':']) := by
      rw [byteLength_append, Nat.zero_add]
      rfl
    rw [segments.parse_eq, behind_name] at h
    rw [line]
    obtain hsource | ⟨s, -, h⟩ := bind_eq_error h
    · have place := Supply.parse_eq_error hsource
      rw [String.toList_ofList] at place
      exact place.append _
    · have behind_source : 0 + byteLength (name ++ [':']) + byteLength source + 1
          = 0 + byteLength (name ++ [':'] ++ (source ++ [':'])) := by
        have colon : byteLength [':'] = 1 := rfl
        rw [byteLength_append _ (source ++ [':']), byteLength_append source, colon]
        omega
      rw [behind_source] at h
      obtain htopology | ⟨root, -, h⟩ := bind_eq_error h
      · have place := parseTopology_eq_error htopology
        rw [String.toList_ofList] at place
        simpa using place.append []
      · cases h
  · cases h.symm.trans refused
    exact ⟨_, [], _, (List.append_nil _).symm, by rw [Nat.zero_add]⟩

end Description

/-- **Positions are those in the line.** Behind two headers the same topology is
read as the same network, or refused for the same cause at the same distance
from the header. And whatever is refused, the position is in front of a
character of the line, or at its end. -/
theorem parse_shifts_positions :
    (∀ (h h' : Description.Header) (topology : String),
      (∃ root, Description.parse (h.text ++ topology) = .ok ⟨h.name, h.supply, root⟩ ∧
        Description.parse (h'.text ++ topology) = .ok ⟨h'.name, h'.supply, root⟩) ∨
      ∃ distance cause,
        Description.parse (h.text ++ topology) =
          .error (.malformed (h.text.utf8ByteSize + distance) cause) ∧
        Description.parse (h'.text ++ topology) =
          .error (.malformed (h'.text.utf8ByteSize + distance) cause)) ∧
    ∀ input e, Description.parse input = .error e →
      ∃ line position cause, IsLineOf line input ∧ e = .malformed position cause ∧
        position ≤ line.utf8ByteSize ∧ (String.Pos.Raw.mk position).IsValid line := by
  constructor
  · intro h h' topology
    -- the topology on its own, at no distance from its start
    have moved (h : Description.Header) : Description.parse (h.text ++ topology) =
        ((parseTopology (lineOf topology) 0).mapError (Failure.shift h.text.utf8ByteSize)).map
          fun root => ⟨h.name, h.supply, root⟩ := by
      rw [h.parse_eq, ← parseTopology_shift, Nat.zero_add]
    rw [moved h, moved h']
    cases read : parseTopology (lineOf topology) 0 with
    | ok root => exact .inl ⟨root, rfl, rfl⟩
    | error e =>
      obtain ⟨before, -, cause, -, rfl⟩ := parseTopology_eq_error read
      refine .inr ⟨byteLength before, cause, ?_, ?_⟩ <;>
        simp only [Except.mapError, Except.map, Failure.shift, Nat.zero_add, Nat.add_comm]
  · intro input e h
    have place : e.PointsInto 0 (lineOf input).toList := by
      rw [lineOf, String.toList_ofList]
      exact Description.parse_eq_error h
    obtain ⟨position, cause, he, hle, hvalid⟩ := place.isValid
    exact ⟨lineOf input, position, cause, isLineOf_lineOf input, he, hle, hvalid⟩

/-- A header of a name and a source that is read. -/
theorem Description.exists_header (name source : String) (hname : ':' ∉ name.toList)
    (hsource : ':' ∉ source.toList) (accepted : (Supply.parse source 0).isOk) :
    ∃ h : Header, h.text = name ++ ":" ++ source ++ ":" := by
  obtain ⟨s, hs⟩ := exists_eq_ok_of_isOk accepted
  exact ⟨⟨name, source, s, hname, hsource, 0, hs⟩, rfl⟩

/-- A group that is opened and has no element, behind a short header and behind
one with letters of two bytes. -/
theorem parse_shifts_positions_openGroup : ∃ distance cause,
    Description.parse "X:V.1:10:" = .error (.malformed (6 + distance) cause) ∧
      Description.parse "Größe:I.20m:10:" = .error (.malformed (14 + distance) cause) ∧
      ∃ line, IsLineOf line "X:V.1:10:" ∧ 6 + distance ≤ line.utf8ByteSize := by
  obtain ⟨h, htext⟩ := Description.exists_header "X" "V.1" (by decide) (by decide)
    (by decide +kernel)
  obtain ⟨h', htext'⟩ := Description.exists_header "Größe" "I.20m" (by decide) (by decide)
    (by decide +kernel)
  have refused : (Description.parse "X:V.1:10:").isOk = false := by decide +kernel
  have moved := parse_shifts_positions.1 h h' "10:"
  rw [htext, htext'] at moved
  rcases moved with ⟨root, hroot, -⟩ | ⟨distance, cause, herror, herror'⟩
  · have accepted : (Description.parse "X:V.1:10:").isOk = true := congrArg Except.isOk hroot
    exact absurd (refused.symm.trans accepted) Bool.noConfusion
  · obtain ⟨line, position, cause', hline, he, hle, -⟩ :=
      parse_shifts_positions.2 "X:V.1:10:" _ herror
    cases he
    exact ⟨distance, cause, herror, herror', line, hline, hle⟩

end SeriesParallel
