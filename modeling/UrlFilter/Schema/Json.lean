import UrlFilter.Json.Decode
import UrlFilter.Json.Write
import UrlFilter.Schema

/-! Schemas as JSON. Both parts may be missing when a schema is read, and both are written. A
field that is named twice has the later of its types. -/
namespace UrlFilter
namespace FieldType

/-- A type by its name. -/
def toJson (t : FieldType) : Json :=
  .text t.name

/-- The type with a name. -/
def ofNameJson (name : String) : Except DecodeError FieldType :=
  match ofName? name with
  | some t => .ok t
  | none => .error .malformed

/-- The type that a document encodes: its name, or an object that has the name for its one
member, with nothing in it. -/
def ofJson (room : Nat) : Json → Except DecodeError FieldType
  | .string (some name) => ofNameJson name
  | .object [(some name, .null)] => if room = 0 then .error .malformed else ofNameJson name
  | _ => .error .malformed

end FieldType

namespace FilterFields

/-- Fields as an object with a member for each. -/
def toJson (fields : FilterFields) : Json :=
  .record (fields.entries.map fun entry => (entry.1, entry.2.toJson))

/-- The fields that a document encodes. -/
def ofJson (room : Nat) : Json → Except DecodeError FilterFields
  | .object members =>
    match room with
    | 0 => .error .malformed
    | room + 1 =>
      Json.decodeMembers
        (fun name v fields => (FieldType.ofJson room v).map (fields.insert name)) members ∅
  | _ => .error .malformed

end FilterFields

namespace SortFields

/-- Columns as an array. -/
def toJson (fields : SortFields) : Json :=
  .array (fields.columns.map .text)

/-- The columns that a document encodes. -/
def ofJson (room : Nat) (v : Json) : Except DecodeError SortFields :=
  (Json.decodeArray room (fun _ => Json.decodeString) v).map SortFields.mk

end SortFields

namespace Schema

/-- A schema as an object. -/
def toJson (s : Schema) : Json :=
  .record [("filter_fields", s.filterFields.toJson), ("sort_fields", s.sortFields.toJson)]

/-- The parts of a schema as far as they are read. -/
structure Parts where
  filterFields : Option FilterFields := none
  sortFields : Option SortFields := none

/-- Reads one part. -/
def Parts.put (room : Nat) (name : String) (v : Json) (parts : Parts) :
    Except DecodeError Parts :=
  match name with
  | "filter_fields" =>
    (Json.decodeOnce parts.filterFields (FilterFields.ofJson room v)).map
      ({ parts with filterFields := · })
  | "sort_fields" =>
    (Json.decodeOnce parts.sortFields (SortFields.ofJson room v)).map
      ({ parts with sortFields := · })
  | _ => .ok parts

/-- The schema that a document encodes. -/
def ofJson (room : Nat) (v : Json) : Except DecodeError Schema :=
  match Json.decodeRecord room ["filter_fields", "sort_fields"] Parts.put {} v with
  | .error e => .error e
  | .ok parts => .ok ⟨parts.filterFields.getD ∅, parts.sortFields.getD {}⟩

end Schema
end UrlFilter
