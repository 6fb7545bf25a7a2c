import UrlFilter.Text.Digit
import UrlFilter.Text.Utf8

/-! Percent-encoding. An escape is `%` and two hexadecimal digits of either case, and stands
for one byte. A `%` that no two digits follow stands for itself, and so does `+`. The bytes of
a whole text must be UTF-8 once the escapes are resolved. -/
namespace UrlFilter.Text.Percent

/-- The byte that the escape with these two digits stands for. -/
def byte? (high low : Char) : Option UInt8 :=
  match hexDigit? high, hexDigit? low with
  | some a, some b => some (UInt8.ofNat (16 * a + b))
  | _, _ => none

/-- The bytes of a text with its escapes resolved. -/
def bytes : List Char → List UInt8
  | '%' :: high :: low :: rest =>
    match byte? high low with
    | some b => b :: bytes rest
    | none => String.utf8EncodeChar '%' ++ bytes (high :: low :: rest)
  | c :: rest => String.utf8EncodeChar c ++ bytes rest
  | [] => []

/-- The text that a percent-encoded text stands for. -/
def decode (s : String) : Except Utf8Fault String :=
  (Text.decode (bytes s.toList)).map String.ofList

end UrlFilter.Text.Percent
