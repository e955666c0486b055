import Mathlib.Data.List.TakeWhile
import SeriesParallel.Description

/-!
# Description — the segments of a line

A line has three segments, and the two colons between them are the first two of
the line. What is described is read from the segments alone.
-/

namespace SeriesParallel

/-- A text is split at its first colon. -/
theorem splitColon?_eq_some_iff {cs before after : List Char} :
    splitColon? cs = some (before, after) ↔ cs = before ++ ':' :: after ∧ ':' ∉ before := by
  constructor
  · intro h
    have halves : cs.takeWhile (· != ':') ++ cs.dropWhile (· != ':') = cs :=
      List.takeWhile_append_dropWhile
    have first := List.head?_dropWhile_not (· != ':') cs
    unfold splitColon? at h
    cases hdrop : cs.dropWhile (· != ':') with
    | nil =>
      rw [hdrop] at h
      cases h
    | cons c rest =>
      rw [hdrop] at h halves first
      obtain ⟨rfl, rfl⟩ := Prod.mk.inj (Option.some.inj h)
      have hc : c = ':' := by simpa using first
      subst hc
      refine ⟨halves.symm, fun hmem => ?_⟩
      simpa using List.mem_takeWhile_imp hmem
  · intro h
    obtain ⟨rfl, not_mem⟩ := h
    have inside : ∀ c ∈ before, (c != ':') = true := by
      intro c hc
      exact bne_iff_ne.mpr fun heq => not_mem (heq ▸ hc)
    rw [splitColon?, List.dropWhile_append_of_pos inside, List.takeWhile_append_of_pos inside]
    simp

namespace Description

/-- A line, without the line ends behind it, is `name:source:topology`. -/
structure Segments (input : String) (name source topology : List Char) : Prop where
  line_eq : Text.dropEnd isLineEnd input.toList = name ++ ':' :: (source ++ ':' :: topology)
  not_mem_name : ':' ∉ name
  not_mem_source : ':' ∉ source

variable {input : String} {name source topology : List Char}

/-- **A line is read segment by segment.** -/
theorem Segments.parse_eq (h : Segments input name source topology) :
    parse input = (do
      let supply ← Supply.parse (String.ofList source) (byteLength name + 1)
      let root ← parseTopology (String.ofList topology)
        (byteLength name + 1 + byteLength source + 1)
      .ok ⟨String.ofList name, supply, root⟩) := by
  have first := splitColon?_eq_some_iff.mpr ⟨h.line_eq, h.not_mem_name⟩
  have second : splitColon? (source ++ ':' :: topology) = some (source, topology) :=
    splitColon?_eq_some_iff.mpr ⟨rfl, h.not_mem_source⟩
  rw [parse]
  simp only [first, second, Option.bind_eq_bind, Option.bind_some]

/-- A line has its segments, or it is refused for lack of one, at its end. -/
theorem segments_or_missing (input : String) :
    (∃ name source topology, Segments input name source topology) ∨
      parse input =
        .error (.malformed (byteLength (Text.dropEnd isLineEnd input.toList)) .missingSegment) := by
  cases first : splitColon? (Text.dropEnd isLineEnd input.toList) with
  | none => exact .inr (by simp [parse, first])
  | some halves =>
    obtain ⟨name, rest⟩ := halves
    obtain ⟨hline, hname⟩ := splitColon?_eq_some_iff.mp first
    cases second : splitColon? rest with
    | none => exact .inr (by simp [parse, first, second])
    | some halves =>
      obtain ⟨source, topology⟩ := halves
      obtain ⟨rfl, hsource⟩ := splitColon?_eq_some_iff.mp second
      exact .inl ⟨name, source, topology, hline, hname, hsource⟩

/-- A line that is read has its segments. -/
theorem exists_segments {d : Description Float} (h : parse input = .ok d) :
    ∃ name source topology, Segments input name source topology := by
  rcases segments_or_missing input with segments | refused
  · exact segments
  · cases h.symm.trans refused

end Description

end SeriesParallel
