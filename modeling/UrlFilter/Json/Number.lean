/-! Numbers of JSON documents. A number is kept by its parts, and only two things are asked of
it: the natural number that it is in plain digits, and whether a 64-bit float is calculated for
it.

The float is that of the short calculation, which rounds more than once: the leading digits that
fit 64 bits are rounded to a float, and so is the power of ten by which they are to be
multiplied, and then the product of the two. So some numbers just below the limit come out
infinite, such as 1.7976931348623158e308, and some just above it finite, such as
1.79769313486231581e308. All magnitudes that matter here are natural numbers, and a natural number
is a float when it has at most 53 binary digits before its zeros. -/
namespace UrlFilter

/-- A JSON number by its parts: sign, digits before and after the point, exponent. -/
structure JsonNumber where
  negative : Bool := false
  whole : Nat
  /-- Digits after the point; none if there is no point. -/
  fraction : List Char := []
  exponent : Option Int := none
  deriving DecidableEq, Repr

namespace JsonNumber

instance : OfNat JsonNumber n := ⟨{ whole := n }⟩

/-- The natural number that is written as plain digits. -/
def natural? (n : JsonNumber) : Option Nat :=
  if n.negative || !n.fraction.isEmpty || n.exponent.isSome then none else some n.whole

/-- Appends decimal digits to a number as long as the result fits 64 bits: the result, and how
many digits are left out. -/
def takeDigits (n : Nat) : List Char → Nat × Nat
  | [] => (n, 0)
  | c :: cs =>
    let next := Nat.ofDigitChars 10 [c] n
    if next < UInt64.size then takeDigits next cs else (n, cs.length + 1)

/-- The leading digits as one number, and the power of ten by which it is to be multiplied.
Digits that are left out before the point raise the power; digits taken behind it lower it. -/
def scaled (n : JsonNumber) : Nat × Int :=
  let (whole, omitted) := takeDigits 0 (Nat.toDigits 10 n.whole)
  let (digits, omittedBehind) := takeDigits whole n.fraction
  let places : Int := n.fraction.length - omittedBehind
  (digits, omitted - places + n.exponent.getD 0)

/-- The float nearest to a natural number, and the even one of two. There is no greatest float
here: overflow is told by `overflow`. -/
def nearestFloat (n : Nat) : Nat :=
  let unit := Nat.pow 2 (n.log2 - 52)
  let quotient := n / unit
  let remainder := n % unit
  if unit < 2 * remainder ∨ unit = 2 * remainder ∧ quotient % 2 = 1 then (quotient + 1) * unit
  else quotient * unit

/-- The least magnitude that rounds beyond the greatest 64-bit float. -/
def overflow : Nat := Nat.pow 2 1024 - Nat.pow 2 970

/-- Whether the short calculation comes out finite, which near the limit is not always whether the
number itself is finite as a 64-bit float. The greatest power of ten that is a finite float is
308. -/
def isFinite (n : JsonNumber) : Bool :=
  let (digits, power) := n.scaled
  if digits = 0 || power ≤ 0 then true
  else if 308 < power then false
  else nearestFloat digits * nearestFloat (Nat.pow 10 power.toNat) < overflow

end JsonNumber
end UrlFilter
