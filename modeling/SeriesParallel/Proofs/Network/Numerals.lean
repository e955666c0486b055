import SeriesParallel.Network.Label

/-!
# Network — labels as numerals

A label is the numeral of its number in base 26, with digits A to Z that count
from one to 26. The digits can be summed up again, so a label tells its number.
-/

namespace SeriesParallel

/-- The digit that a capital letter stands for, from one for A on. -/
def letterDigit (c : Char) : Nat := c.toNat - 'A'.toNat + 1

/-- The number that letters stand for, the last letter of the numeral first. -/
def letterNumber : List Char → Nat
  | [] => 0
  | c :: cs => letterDigit c + 26 * letterNumber cs

theorem letterDigit_ofNat {k : Nat} (h : k < 26) :
    letterDigit (Char.ofNat ('A'.toNat + k)) = k + 1 := by
  have digit : ∀ k < 26, letterDigit (Char.ofNat ('A'.toNat + k)) = k + 1 := by decide
  exact digit k h

/-- **The letters of a label stand for its number.** -/
theorem letterNumber_labelLetters (n : Nat) : letterNumber (labelLetters n) = n := by
  induction n using labelLetters.induct with
  | case1 => rw [labelLetters, if_pos rfl, letterNumber]
  | case2 n hn ih =>
    rw [labelLetters, if_neg hn, letterNumber, ih, letterDigit_ofNat (Nat.mod_lt _ (by decide))]
    -- the digit takes one off, so that the quotient and the remainder are those of `n - 1`
    have division := Nat.mod_add_div (n - 1) 26
    omega

/-- **No two numbers share a label.** -/
theorem label_injective : Function.Injective label := by
  intro m n h
  rw [label, label, String.ofList_inj, List.reverse_inj] at h
  calc m = letterNumber (labelLetters m) := (letterNumber_labelLetters m).symm
    _ = letterNumber (labelLetters n) := by rw [h]
    _ = n := letterNumber_labelLetters n

end SeriesParallel
