import UrlFilter.Json.Number

/-! JSON documents. A document keeps the members of its objects in the order of the text, and
all of them, also those with one name. A string that holds half of a surrogate pair is no text;
it is kept without one, because a reader that skips it need not object. -/
namespace UrlFilter

/-- A JSON document. -/
inductive Json where
  | null
  | bool (b : Bool)
  | number (n : JsonNumber)
  /-- A string; without a text if it holds half of a surrogate pair. -/
  | string (text : Option String)
  | array (items : List Json)
  | object (members : List (Option String × Json))
  deriving Repr

namespace Json

/-- A string with a text. -/
abbrev text (s : String) : Json := .string (some s)

/-- A number in plain digits. -/
abbrev natural (n : Nat) : Json := .number { whole := n }

/-- An object whose members have names that are texts. -/
def record (members : List (String × Json)) : Json :=
  .object (members.map fun m => (some m.1, m.2))

mutual

/-- The number of arrays and objects around the innermost value, this one counted. -/
def nesting : Json → Nat
  | array items => nestingOfItems items + 1
  | object members => nestingOfMembers members + 1
  | _ => 0

/-- The deepest nesting among values. -/
def nestingOfItems : List Json → Nat
  | [] => 0
  | v :: rest => max v.nesting (nestingOfItems rest)

/-- The deepest nesting among members. -/
def nestingOfMembers : List (Option String × Json) → Nat
  | [] => 0
  | (_, v) :: rest => max v.nesting (nestingOfMembers rest)

end

mutual

/-- Whether every string and every name is a text and every number comes out finite. -/
def isPlain : Json → Bool
  | number n => n.isFinite
  | string text => text.isSome
  | array items => arePlain items
  | object members => membersArePlain members
  | _ => true

/-- `isPlain` for all values of a list. -/
def arePlain : List Json → Bool
  | [] => true
  | v :: rest => v.isPlain && arePlain rest

/-- `isPlain` for all members of a list, their names included. -/
def membersArePlain : List (Option String × Json) → Bool
  | [] => true
  | (name, v) :: rest => name.isSome && v.isPlain && membersArePlain rest

end

end Json
end UrlFilter
