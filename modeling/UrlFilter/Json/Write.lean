import UrlFilter.Json.Token

/-! Writing JSON, on one line without blanks or indented over several lines. Both forms write
the same tokens. Indented, each item and each member has a line of its own, two spaces deeper
than what it belongs to, and an empty array or object stays on one line. -/
namespace UrlFilter
namespace Json

mutual

/-- The tokens of a document. -/
def tokens : Json → List JsonToken
  | null => [.null]
  | bool b => [.bool b]
  | number n => [.number n]
  | string text => [.string text]
  | array items => .openArray :: (itemTokens items ++ [.closeArray])
  | object members => .openObject :: (memberTokens members ++ [.closeObject])

/-- The tokens of items, with the commas between them. -/
def itemTokens : List Json → List JsonToken
  | [] => []
  | [v] => v.tokens
  | v :: w :: rest => v.tokens ++ .comma :: itemTokens (w :: rest)

/-- The tokens of members, with the commas between them. -/
def memberTokens : List (Option String × Json) → List JsonToken
  | [] => []
  | [(name, v)] => .string name :: .colon :: v.tokens
  | (name, v) :: w :: rest =>
    .string name :: .colon :: (v.tokens ++ .comma :: memberTokens (w :: rest))

end

/-- A document on one line without blanks. -/
def compact (v : Json) : String :=
  String.ofList (v.tokens.flatMap JsonToken.text)

/-- A line break and the blanks that a line at this depth starts with. -/
def lineBreak (depth : Nat) : List Char :=
  '\n' :: List.replicate (2 * depth) ' '

mutual

/-- An indented document at a depth. -/
def prettyChars (depth : Nat) : Json → List Char
  | null => JsonToken.text .null
  | bool b => JsonToken.text (.bool b)
  | number n => JsonToken.text (.number n)
  | string text => JsonToken.text (.string text)
  | array [] => JsonToken.text .openArray ++ JsonToken.text .closeArray
  | array (v :: rest) =>
    JsonToken.text .openArray ++ prettyItems (depth + 1) (v :: rest) ++ lineBreak depth ++
      JsonToken.text .closeArray
  | object [] => JsonToken.text .openObject ++ JsonToken.text .closeObject
  | object (m :: rest) =>
    JsonToken.text .openObject ++ prettyMembers (depth + 1) (m :: rest) ++ lineBreak depth ++
      JsonToken.text .closeObject

/-- Items, each on a line of its own. -/
def prettyItems (depth : Nat) : List Json → List Char
  | [] => []
  | [v] => lineBreak depth ++ prettyChars depth v
  | v :: w :: rest =>
    lineBreak depth ++ prettyChars depth v ++ JsonToken.text .comma ++
      prettyItems depth (w :: rest)

/-- Members, each on a line of its own. -/
def prettyMembers (depth : Nat) : List (Option String × Json) → List Char
  | [] => []
  | [(name, v)] =>
    lineBreak depth ++ JsonToken.text (.string name) ++ [':', ' '] ++ prettyChars depth v
  | (name, v) :: w :: rest =>
    lineBreak depth ++ JsonToken.text (.string name) ++ [':', ' '] ++ prettyChars depth v ++
      JsonToken.text .comma ++ prettyMembers depth (w :: rest)

end

/-- A document over several lines. -/
def pretty (v : Json) : String :=
  String.ofList (prettyChars 0 v)

end Json
end UrlFilter
