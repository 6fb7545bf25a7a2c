import UrlFilter.Filter
import UrlFilter.Json.Decode
import UrlFilter.Json.Write

/-! Filters as JSON. A term is an object with a `logic`; a predicate has `op`, `field` and
`value` beside it, a group has `sub_filter`. A term that could be read both ways is a
predicate. Members that are missing, repeated or of the wrong shape spoil only the reading that
needs them, except for `logic`, which every term has exactly once. -/
namespace UrlFilter
namespace Term

mutual

/-- A term as an object. -/
def toJson : Term → Json
  | predicate link test =>
    .record [("logic", link.toJson), ("op", test.op.toJson), ("field", .text test.field),
      ("value", .text test.value)]
  | group link terms =>
    .record [("logic", link.toJson), ("sub_filter", .array (listToJson terms))]

/-- Terms as objects. -/
def listToJson : List Term → List Json
  | [] => []
  | t :: rest => t.toJson :: listToJson rest

end

/-- The members of a term as far as they are read. Of `op`, `field`, `value` and `sub_filter`
each occurrence counts, with its value if that is of the right shape. -/
structure Parts where
  link : Option Connective := none
  op : List (Option Operator) := []
  field : List (Option String) := []
  value : List (Option String) := []
  terms : List (Option Filter) := []

/-- The value of a member that occurs once and is of the right shape. -/
def sole? : List (Option α) → Option α
  | [some a] => some a
  | _ => none

namespace Parts

/-- The parts with one more member of a predicate. Other members count for nothing. -/
def add (parts : Parts) (name : String) (v : Json) : Parts :=
  if name = "op" then { parts with op := (Operator.ofJson v).toOption :: parts.op }
  else if name = "field" then
    { parts with field := (Json.decodeString v).toOption :: parts.field }
  else if name = "value" then
    { parts with value := (Json.decodeString v).toOption :: parts.value }
  else parts

/-- The term that the members make up. -/
def term (parts : Parts) : Except DecodeError Term :=
  match parts.link with
  | none => .error .malformed
  | some link =>
    match sole? parts.op, sole? parts.field, sole? parts.value with
    | some op, some field, some value => .ok (predicate link ⟨op, field, value⟩)
    | _, _, _ =>
      match sole? parts.terms with
      | some terms => .ok (group link terms)
      | none => .error .malformed

end Parts

mutual

/-- The term that a document encodes. -/
def ofJson (room : Nat) : Json → Except DecodeError Term
  | .object members =>
    match room with
    | 0 => .error .malformed
    | room + 1 =>
      match readParts room members {} with
      | .error e => .error e
      | .ok parts => parts.term
  | _ => .error .malformed

/-- Adds the members of an object to the parts of a term. Every member is read, so it must not
be nested too deeply, and its texts and numbers must have values. -/
def readParts (room : Nat) :
    List (Option String × Json) → Parts → Except DecodeError Parts
  | [], parts => .ok parts
  | (none, _) :: _, _ => .error .malformed
  | (some name, v) :: rest, parts =>
    if name = "logic" then
      if parts.link.isSome then .error .malformed
      else
        match Connective.ofJson v with
        | .error e => .error e
        | .ok link => readParts room rest { parts with link := some link }
    else if ¬ (v.isPlain ∧ v.nesting ≤ room) then .error .malformed
    else if name = "sub_filter" then
      readParts room rest
        { parts with terms := (arrayOfJson room v).toOption :: parts.terms }
    else readParts room rest (parts.add name v)

/-- The terms that an array encodes. -/
def arrayOfJson (room : Nat) : Json → Except DecodeError Filter
  | .array items =>
    match room with
    | 0 => .error .malformed
    | room + 1 => listOfJson room items
  | _ => .error .malformed

/-- The terms that the items of an array encode. -/
def listOfJson (room : Nat) : List Json → Except DecodeError Filter
  | [] => .ok []
  | v :: rest =>
    match ofJson room v with
    | .error e => .error e
    | .ok t =>
      match listOfJson room rest with
      | .error e => .error e
      | .ok ts => .ok (t :: ts)

end

end Term

namespace Filter

/-- A filter as an array of its terms. -/
def toJson (f : Filter) : Json :=
  .array (Term.listToJson f)

/-- The filter that a document encodes. -/
def ofJson (room : Nat) (v : Json) : Except DecodeError Filter :=
  Term.arrayOfJson room v

end Filter
end UrlFilter
