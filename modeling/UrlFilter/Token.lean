import UrlFilter.Text.Utf8

/-! The terms of a query text as they are written, with their places. Places and sizes count
UTF-8 bytes. -/
namespace UrlFilter

/-- A range of bytes of a text, from `start` up to and without `stop`. -/
structure Span where
  start : Nat := 0
  stop : Nat := 0
  deriving DecidableEq, Repr

namespace Span

/-- The number of bytes. -/
def length (s : Span) : Nat :=
  s.stop - s.start

/-- Whether the other span starts where this one stops. -/
def isFollowedBy (s t : Span) : Bool :=
  s.stop == t.start

/-- The characters of a text that start in the span, when the first of them is at byte
`offset`. -/
def sliceFrom (s : Span) (offset : Nat) : List Char → List Char
  | [] => []
  | c :: rest =>
    if s.start ≤ offset ∧ offset < s.stop then c :: s.sliceFrom (offset + c.utf8Size) rest
    else s.sliceFrom (offset + c.utf8Size) rest

/-- The part of a text in the span. -/
def slice (s : Span) (text : String) : String :=
  String.ofList (s.sliceFrom 0 text.toList)

end Span

/-- One term as it is written: a joining symbol, opening parentheses, a field, an operator, a
value and closing parentheses. -/
structure Lexeme where
  /-- `&` or `|`, or nothing for a term at the start of the text. -/
  logic : String
  /-- The number of `(` before the field. -/
  opens : Nat
  field : String
  /-- The operator in the spelling of the text. -/
  op : String
  value : String
  /-- The number of `)` after the value. -/
  closes : Nat
  deriving DecidableEq, Repr

namespace Lexeme

/-- The characters of the term. -/
def text (x : Lexeme) : List Char :=
  x.logic.toList ++ (List.replicate x.opens '(' ++ (x.field.toList ++ (x.op.toList ++
    (x.value.toList ++ List.replicate x.closes ')'))))

/-- The number of bytes of the term. -/
def byteLength (x : Lexeme) : Nat :=
  Text.byteLength x.text

end Lexeme

/-- One term with its place in the text. -/
structure Token extends Lexeme where
  span : Span
  deriving DecidableEq, Repr

namespace Token

/-- The first stretch of a text of `length` bytes that none of the tokens covers, from where
`previous` stops. It is empty if they cover the text to its end. -/
def firstGap (length : Nat) (previous : Span) : List Token → Span
  | [] => ⟨previous.stop, length⟩
  | token :: rest =>
    if previous.isFollowedBy token.span then firstGap length token.span rest
    else ⟨previous.stop, token.span.start⟩

end Token
end UrlFilter
