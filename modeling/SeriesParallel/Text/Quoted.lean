import SeriesParallel.Text.Unprintable

/-!
# Text — quoted text

A text between double quotes. A quote, a backslash and a few controls are
spelled with a backslash and a letter, other characters that are not shown on
their own with their number in base sixteen.
-/

namespace SeriesParallel.Text

/-- A character inside quotes. -/
def quoteChar (c : Char) : List Char :=
  match c with
  | '\x00' => ['\\', '0']
  | '\t' => ['\\', 't']
  | '\n' => ['\\', 'n']
  | '\r' => ['\\', 'r']
  | '"' => ['\\', '"']
  | '\\' => ['\\', '\\']
  | c =>
    if isUnprintable c then '\\' :: 'u' :: '\x7b' :: Nat.toDigits 16 c.toNat ++ ['\x7d']
    else [c]

/-- A text between quotes. -/
def quote (cs : List Char) : List Char := '"' :: cs.flatMap quoteChar ++ ['"']

end SeriesParallel.Text
