import UrlFilter.Text.Digit

/-! Counts in query texts and on the command line: an optional `+`, then at least one of the
ten ASCII digits, for a number that fits 64 bits. -/
namespace UrlFilter.Text

/-- The text without a leading `+`. -/
def dropPlus : List Char → List Char
  | '+' :: cs => cs
  | cs => cs

/-- The number that a text of decimal digits denotes, if it has one digit or more and
nothing else. -/
def natural? (cs : List Char) : Option Nat :=
  if cs ≠ [] ∧ cs.all isDigit then some (Nat.ofDigitChars 10 cs 0) else none

/-- The 64-bit count that a text denotes. -/
def count? (s : String) : Option UInt64 :=
  match natural? (dropPlus s.toList) with
  | some n => if n < UInt64.size then some (UInt64.ofNat n) else none
  | none => none

end UrlFilter.Text
