/-!
# Text — blank characters

The characters with the Unicode property White_Space, and trimming by them.
-/

namespace SeriesParallel.Text

/-- The ranges of the property White_Space, ends included. -/
def blankRanges : List (Nat × Nat) :=
  [(0x9, 0xd), (0x20, 0x20), (0x85, 0x85), (0xa0, 0xa0), (0x1680, 0x1680), (0x2000, 0x200a),
   (0x2028, 0x2029), (0x202f, 0x202f), (0x205f, 0x205f), (0x3000, 0x3000)]

/-- Whether a character is white space. -/
def isBlank (c : Char) : Bool :=
  blankRanges.any fun r => r.1 ≤ c.toNat ∧ c.toNat ≤ r.2

/-- The text without the characters at its end that satisfy `p`. -/
def dropEnd (p : Char → Bool) (cs : List Char) : List Char :=
  (cs.reverse.dropWhile p).reverse

/-- What is dropped at the end of a text satisfies `p`. -/
theorem exists_dropEnd_append (p : Char → Bool) (cs : List Char) :
    ∃ ds, (∀ d ∈ ds, p d) ∧ cs = dropEnd p cs ++ ds := by
  refine ⟨(cs.reverse.takeWhile p).reverse, fun d hd => ?_, ?_⟩
  · exact List.all_eq_true.mp List.all_takeWhile d (List.mem_reverse.mp hd)
  · rw [dropEnd, ← List.reverse_append, List.takeWhile_append_dropWhile, List.reverse_reverse]

/-- What is left does not end with a character that satisfies `p`. -/
theorem getLast?_dropEnd (p : Char → Bool) (cs : List Char) :
    ∀ c ∈ (dropEnd p cs).getLast?, p c = false := by
  intro c hc
  rw [dropEnd, List.getLast?_reverse] at hc
  have first := List.head?_dropWhile_not p cs.reverse
  rw [hc] at first
  simpa using first

/-- Nothing is dropped in front of a character that does not satisfy `p`. -/
theorem dropEnd_append_cons {p : Char → Bool} {c : Char} (hc : p c = false) (cs ds : List Char) :
    dropEnd p (cs ++ c :: ds) = cs ++ c :: dropEnd p ds := by
  have stop : (c :: cs.reverse).dropWhile p = c :: cs.reverse :=
    List.dropWhile_cons_of_neg (Bool.eq_false_iff.mp hc)
  have front : (ds.reverse ++ (c :: cs.reverse)).dropWhile p
      = ds.reverse.dropWhile p ++ (c :: cs.reverse) := by
    rw [List.dropWhile_append, stop]
    split
    next hnil => rw [List.isEmpty_iff.mp hnil, List.nil_append]
    next => rfl
  simp [dropEnd, front]

/-- The text without white space at its end. -/
def trimEnd (cs : List Char) : List Char := dropEnd isBlank cs

/-- The text without white space at either end. -/
def trim (cs : List Char) : List Char := trimEnd (cs.dropWhile isBlank)

end SeriesParallel.Text
