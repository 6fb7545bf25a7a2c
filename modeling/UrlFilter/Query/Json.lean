import UrlFilter.Filter.Json
import UrlFilter.Query

/-! Queries and their parts as JSON. All five members of a query are required; options may be
repeated and come in any order, and are written once each in increasing order. -/
namespace UrlFilter
namespace SortKey

/-- A sort key as an object. -/
def toJson (k : SortKey) : Json :=
  .record [("field", .text k.field), ("desc", .bool k.descending)]

/-- The parts of a sort key as far as they are read. -/
structure Parts where
  field : Option String := none
  descending : Option Bool := none

/-- Reads one part. -/
def Parts.put (_room : Nat) (name : String) (v : Json) (parts : Parts) :
    Except DecodeError Parts :=
  match name with
  | "field" =>
    (Json.decodeOnce parts.field (Json.decodeString v)).map ({ parts with field := · })
  | "desc" =>
    (Json.decodeOnce parts.descending (Json.decodeBool v)).map ({ parts with descending := · })
  | _ => .ok parts

/-- The sort key that a document encodes. -/
def ofJson (room : Nat) (v : Json) : Except DecodeError SortKey :=
  match Json.decodeRecord room ["field", "desc"] Parts.put {} v with
  | .error e => .error e
  | .ok { field := some field, descending := some descending } => .ok ⟨field, descending⟩
  | .ok _ => .error .malformed

end SortKey

namespace OptionSet

/-- A set as an array of its names. -/
def toJson (s : OptionSet) : Json :=
  .array (s.names.map .text)

/-- The set that a document encodes. -/
def ofJson (room : Nat) (v : Json) : Except DecodeError OptionSet :=
  (Json.decodeArray room (fun _ => Json.decodeString) v).map ofList

end OptionSet

namespace Query

/-- A query as an object. -/
def toJson (q : Query) : Json :=
  .record [("filter", q.filter.toJson), ("sort", .array (q.sort.map SortKey.toJson)),
    ("options", q.options.toJson), ("limit", .natural q.limit.toNat),
    ("offset", .natural q.offset.toNat)]

/-- The parts of a query as far as they are read. -/
structure Parts where
  filter : Option Filter := none
  sort : Option (List SortKey) := none
  options : Option OptionSet := none
  limit : Option UInt64 := none
  offset : Option UInt64 := none

/-- Reads one part. -/
def Parts.put (room : Nat) (name : String) (v : Json) (parts : Parts) :
    Except DecodeError Parts :=
  match name with
  | "filter" =>
    (Json.decodeOnce parts.filter (Filter.ofJson room v)).map ({ parts with filter := · })
  | "sort" =>
    (Json.decodeOnce parts.sort (Json.decodeArray room SortKey.ofJson v)).map
      ({ parts with sort := · })
  | "options" =>
    (Json.decodeOnce parts.options (OptionSet.ofJson room v)).map ({ parts with options := · })
  | "limit" =>
    (Json.decodeOnce parts.limit (Json.decodeCount v)).map ({ parts with limit := · })
  | "offset" =>
    (Json.decodeOnce parts.offset (Json.decodeCount v)).map ({ parts with offset := · })
  | _ => .ok parts

/-- The query that a document encodes. -/
def ofJson (room : Nat) (v : Json) : Except DecodeError Query :=
  match Json.decodeRecord room ["filter", "sort", "options", "limit", "offset"] Parts.put {} v with
  | .error e => .error e
  | .ok { filter := some filter, sort := some sort, options := some options,
          limit := some limit, offset := some offset } =>
    .ok { filter, sort, options, limit, offset }
  | .ok _ => .error .malformed

end Query
end UrlFilter
