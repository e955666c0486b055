import Mathlib.Data.List.Shortlex
import Mathlib.Data.Set.Function
import SeriesParallel.Proofs.Network.Labels
import SeriesParallel.Proofs.Network.Numerals

/-!
# Network — labels as names

A **name** is a word of capital letters that is not empty. The labels, from the
first one on, are all the names, each of them once, in the order in which
shorter names come first and names of one length are in alphabetical order.
-/

namespace SeriesParallel

/-! ## Every name is a label -/

/-- A word of capital letters that is not empty. -/
structure IsName (s : String) : Prop where
  ne_empty : s ≠ ""
  isUpper : ∀ c ∈ s.toList, c.isUpper

theorem letterDigit_pos (c : Char) : 0 < letterDigit c := Nat.succ_pos _

/-- A capital letter is the one that its digit is written with. -/
theorem ofNat_letterDigit {c : Char} (h : c.isUpper) :
    letterDigit c ≤ 26 ∧ Char.ofNat ('A'.toNat + (letterDigit c - 1)) = c := by
  have h : c.val ≥ 'A'.val ∧ c.val ≤ 'Z'.val := of_decide_eq_true h
  have low : 'A'.toNat ≤ c.toNat := UInt32.le_iff_toNat_le.mp h.1
  have high : c.toNat ≤ 'Z'.toNat := UInt32.le_iff_toNat_le.mp h.2
  have z : 'Z'.toNat = 'A'.toNat + 25 := rfl
  have digit : letterDigit c = c.toNat - 'A'.toNat + 1 := rfl
  refine ⟨by omega, ?_⟩
  have back : 'A'.toNat + (letterDigit c - 1) = c.toNat := by omega
  rw [back, Char.ofNat_toNat]

/-- **Letters are those of the number they stand for.** -/
theorem labelLetters_letterNumber {cs : List Char} (h : ∀ c ∈ cs, c.isUpper) :
    labelLetters (letterNumber cs) = cs := by
  induction cs with
  | nil => rw [letterNumber, labelLetters, if_pos rfl]
  | cons c cs ih =>
    rw [List.forall_mem_cons] at h
    obtain ⟨digit_le, letter⟩ := ofNat_letterDigit h.1
    have digit_pos := letterDigit_pos c
    have number : letterNumber (c :: cs) = letterDigit c + 26 * letterNumber cs := rfl
    -- the digit less one is the remainder, also where the digit is Z
    have remainder : (letterNumber (c :: cs) - 1) % 26 = letterDigit c - 1 := by omega
    have quotient : (letterNumber (c :: cs) - 1) / 26 = letterNumber cs := by omega
    rw [labelLetters, if_neg (by omega), remainder, quotient, letter, ih h.2]

/-- **A name is the label of its number.** -/
theorem IsName.exists_label {s : String} (h : IsName s) : ∃ n, 0 < n ∧ label n = s := by
  have letters : labelLetters (letterNumber s.toList.reverse) = s.toList.reverse :=
    labelLetters_letterNumber fun c hc => h.isUpper c (List.mem_reverse.mp hc)
  have named : label (letterNumber s.toList.reverse) = s := by
    rw [label, letters, List.reverse_reverse, String.ofList_toList]
  refine ⟨_, Nat.pos_of_ne_zero fun zero => h.ne_empty ?_, named⟩
  rw [← named, zero, label, labelLetters, if_pos rfl]
  rfl

theorem isName_label {n : Nat} (h : 0 < n) : IsName (label n) where
  ne_empty := by
    intro empty
    have positive := length_label_pos h
    rw [empty] at positive
    exact absurd positive (by decide)
  isUpper _ := isUpper_of_mem_label

/-! ## The order of labels -/

/-- One text stands in front of another: it is shorter, or it is of the same
length and comes first in alphabetical order. -/
def NameBefore (s t : String) : Prop := s.toList.Shortlex (· < ·) t.toList

/-- The first difference of two texts stays the first one behind them. -/
theorem lex_snoc {s t : List Char} (h : List.Lex (· < ·) s t) (hlen : s.length = t.length)
    (x y : Char) : List.Lex (· < ·) (s ++ [x]) (t ++ [y]) := by
  induction h with
  | nil => simp at hlen
  | rel lt => exact .rel lt
  | cons _ ih => exact .cons (ih (Nat.succ.inj hlen))

/-- A last letter does not matter behind words that are in order. -/
theorem shortlex_snoc {s t : List Char} (h : s.Shortlex (· < ·) t) (x y : Char) :
    (s ++ [x]).Shortlex (· < ·) (t ++ [y]) := by
  rw [List.shortlex_def] at h
  rcases h with shorter | ⟨hlen, lex⟩
  · exact .of_length_lt (by simpa using shorter)
  · exact .of_lex (by simpa using hlen) (lex_snoc lex hlen x y)

theorem ofNat_lt_ofNat {a b : Nat} (hb : b < 26) (h : a < b) :
    Char.ofNat ('A'.toNat + a) < Char.ofNat ('A'.toNat + b) := by
  have code : ∀ k < 26, (Char.ofNat ('A'.toNat + k)).toNat = 'A'.toNat + k := by decide
  rw [Char.lt_def, UInt32.lt_iff_toNat_lt]
  show (Char.ofNat ('A'.toNat + a)).toNat < (Char.ofNat ('A'.toNat + b)).toNat
  rw [code a (by omega), code b hb]
  omega

/-- **Letters are in the order of the numbers**: that of the numbers in front of
the last letter, and for one such number that of the last letter. -/
theorem shortlex_labelLetters {m n : Nat} (h : m < n) :
    (labelLetters m).reverse.Shortlex (· < ·) (labelLetters n).reverse := by
  induction n using labelLetters.induct generalizing m with
  | case1 => exact absurd h (Nat.not_lt_zero m)
  | case2 n hn ih =>
    rw [labelLetters.eq_def n, if_neg hn, List.reverse_cons, labelLetters.eq_def m]
    by_cases hm : m = 0
    · rw [if_pos hm]
      exact .of_length_lt (by simp)
    · rw [if_neg hm, List.reverse_cons]
      have division := Nat.mod_add_div (m - 1) 26
      have division' := Nat.mod_add_div (n - 1) 26
      rcases Nat.lt_trichotomy ((m - 1) / 26) ((n - 1) / 26) with lt | same | gt
      · exact shortlex_snoc (ih lt) _ _
      · rw [same]
        refine List.Shortlex.append_left ((List.shortlex_singleton_iff _ _).mpr ?_) _
        exact ofNat_lt_ofNat (Nat.mod_lt _ (by decide)) (by omega)
      · omega

theorem nameBefore_label {m n : Nat} (h : m < n) : NameBefore (label m) (label n) := by
  rw [NameBefore, label, label, String.toList_ofList, String.toList_ofList]
  exact shortlex_labelLetters h

/-- **Labels are in the order of their numbers.** -/
theorem nameBefore_label_iff {m n : Nat} : NameBefore (label m) (label n) ↔ m < n := by
  refine ⟨fun before => ?_, nameBefore_label⟩
  rcases Nat.lt_trichotomy m n with lt | rfl | gt
  · exact lt
  · exact absurd before (Std.Irrefl.irrefl (r := List.Shortlex (· < ·)) _)
  · exact absurd (nameBefore_label gt) (Std.Asymm.asymm (r := List.Shortlex (· < ·)) _ _ before)

/-! ## All names in order -/

/-- A sequence gives out labels from its number on. -/
theorem LabelSequence.take_fst (s : LabelSequence) (count : Nat) :
    (s.take count).1 = (List.range' s.number count).map label := by
  induction count generalizing s with
  | zero => rfl
  | succ count ih =>
    rw [take, List.range'_succ, List.map_cons]
    exact congrArg (label s.number :: ·) (ih s.next.2)

/-- **Labels are all names, each of them once, in order.** From one on, numbers
and names correspond, and no two numbers share a label; a label stands in front
of another exactly when its number does. The sequence of labels gives them out
in this order from the first one on. -/
theorem label_enumerates_names :
    Set.BijOn label {n | 0 < n} {s | IsName s} ∧
    (∀ s, IsName s ↔ ∃! n, 0 < n ∧ label n = s) ∧
    (∀ m n, label m = label n ↔ m = n) ∧
    (∀ m n, NameBefore (label m) (label n) ↔ m < n) ∧
    ∀ count, (({} : LabelSequence).take count).1 = (List.range' 1 count).map label := by
  refine ⟨⟨fun n => isName_label, label_injective.injOn, fun s => IsName.exists_label⟩,
    fun s => ⟨fun h => ?_, fun h => ?_⟩, fun m n => label_injective.eq_iff,
    fun m n => nameBefore_label_iff, LabelSequence.take_fst {}⟩
  · obtain ⟨n, hn, rfl⟩ := h.exists_label
    exact ⟨n, ⟨hn, rfl⟩, fun m hm => label_injective hm.2⟩
  · obtain ⟨n, ⟨hn, rfl⟩, -⟩ := h
    exact isName_label hn

end SeriesParallel
