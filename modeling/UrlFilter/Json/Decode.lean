import UrlFilter.Connective
import UrlFilter.Json.Read
import UrlFilter.Operator

/-! Decoding JSON documents into values of the library. Decoders go through a document in the
order of its text and stop at the first fault. `room` is the number of arrays and objects that
may still open; a decoder that enters one takes one level off. Records are written as objects,
whose unknown members are skipped, or as arrays of their parts in order. -/
namespace UrlFilter

/-- Why a document is not what was asked for. -/
inductive DecodeError where
  /-- A name that no operator is spelled with. -/
  | unknownOperator (name : String)
  /-- A name that no connective has. -/
  | unknownConnective (name : String)
  /-- Any other fault of the text, or of the document's shape. -/
  | malformed
  deriving DecidableEq, Repr

/-- The wording of an error that has one of its own. -/
def DecodeError.message? : DecodeError → Option String
  | unknownOperator name => some ("unknown filter operator: " ++ name)
  | unknownConnective name => some ("unknown filter logic: " ++ name)
  | malformed => none

namespace Json

/-- The greatest nesting of arrays and objects that decoders read. -/
def maxNesting : Nat := 127

/-- The value that a text encodes. Where the text stops being JSON, what stands before the
fault is decoded for its errors alone. -/
def decodeText (decode : Json → Except DecodeError α) (s : String) : Except DecodeError α :=
  match read s with
  | .whole v => decode v
  | .broken none => .error .malformed
  | .broken (some v) =>
    match decode v with
    | .error e => .error e
    | .ok _ => .error .malformed

/-- A text. -/
def decodeString : Json → Except DecodeError String
  | .string (some s) => .ok s
  | _ => .error .malformed

/-- A truth value. -/
def decodeBool : Json → Except DecodeError Bool
  | .bool b => .ok b
  | _ => .error .malformed

/-- A 64-bit count, in plain digits. -/
def decodeCount : Json → Except DecodeError UInt64
  | .number n =>
    match n.natural? with
    | some n => if n < UInt64.size then .ok (UInt64.ofNat n) else .error .malformed
    | none => .error .malformed
  | _ => .error .malformed

/-- An array, with a decoder for its items. -/
def decodeArray (room : Nat) (item : Nat → Json → Except DecodeError α) :
    Json → Except DecodeError (List α)
  | .array items =>
    match room with
    | 0 => .error .malformed
    | room + 1 => items.mapM (item room)
  | _ => .error .malformed

/-- A value for a part of a record that may be read once. -/
def decodeOnce (part : Option α) (value : Except DecodeError α) :
    Except DecodeError (Option α) :=
  match part with
  | some _ => .error .malformed
  | none => value.map some

/-- Adds the members of an object to a record under construction. -/
def decodeMembers (put : String → Json → σ → Except DecodeError σ) :
    List (Option String × Json) → σ → Except DecodeError σ
  | [], record => .ok record
  | (none, _) :: _, _ => .error .malformed
  | (some name, v) :: rest, record =>
    match put name v record with
    | .error e => .error e
    | .ok record => decodeMembers put rest record

/-- Adds the items of an array to a record under construction, each under the name of its
place. -/
def decodePlaces (put : String → Json → σ → Except DecodeError σ) :
    List String → List Json → σ → Except DecodeError σ
  | _, [], record => .ok record
  | [], _ :: _, _ => .error .malformed
  | name :: names, v :: rest, record =>
    match put name v record with
    | .error e => .error e
    | .ok record => decodePlaces put names rest record

/-- The parts of a record, from an object with members of these names, or from an array. -/
def decodeRecord (room : Nat) (names : List String)
    (put : Nat → String → Json → σ → Except DecodeError σ) (empty : σ) :
    Json → Except DecodeError σ
  | .object members =>
    match room with
    | 0 => .error .malformed
    | room + 1 => decodeMembers (put room) members empty
  | .array items =>
    match room with
    | 0 => .error .malformed
    | room + 1 => decodePlaces (put room) names items empty
  | _ => .error .malformed

end Json

/-- An operator in its canonical spelling. -/
def Operator.toJson (op : Operator) : Json :=
  .text op.symbol

/-- An operator in any spelling. -/
def Operator.ofJson : Json → Except DecodeError Operator
  | .string (some s) =>
    match ofSpelling? s with
    | some op => .ok op
    | none => .error (.unknownOperator s)
  | _ => .error .malformed

/-- A connective by its name. -/
def Connective.toJson (link : Connective) : Json :=
  .text link.name

/-- A connective by its name. -/
def Connective.ofJson : Json → Except DecodeError Connective
  | .string (some s) =>
    match ofName? s with
    | some link => .ok link
    | none => .error (.unknownConnective s)
  | _ => .error .malformed

end UrlFilter
