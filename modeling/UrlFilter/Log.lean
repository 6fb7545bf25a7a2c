import UrlFilter.Query.Parse
import UrlFilter.Sql.Statement

/-! What the library reports about its work. Events follow from the input and the outcome of
each piece of work, in the order of the work: scanning and parsing, then each predicate that is
bound, then each sort key that is passed over, then the result. Where the work fails, the
events before the failure stand. -/
namespace UrlFilter.Log

/-- How much detail an event is. -/
inductive Level where
  | trace
  | debug
  | info
  deriving DecidableEq, Repr

/-- The name of a level. -/
def Level.name : Level → String
  | trace => "TRACE"
  | debug => "DEBUG"
  | info => "INFO"

/-- A detail of an event. -/
inductive Value where
  | count (n : Nat)
  | text (s : String)
  deriving DecidableEq, Repr

/-- Something that happened. -/
inductive Event where
  | scanned (tokens : Nat)
  /-- The first stretch of the query that belongs to no term. -/
  | uncovered (gap : Span) (text : String)
  | parsed (predicates keys : Nat) (limit offset : UInt64)
  | bound (column op : String) (place : Nat)
  | skippedKey (field : String)
  | compiled (predicates params : Nat)
  | listed (params : Nat) (table : String)
  | loadedSchema (path : String) (filterFields sortFields : Nat)
  | finished
  deriving DecidableEq, Repr

namespace Event

/-- The level of an event. -/
def level : Event → Level
  | scanned _ | bound _ _ _ => .trace
  | finished => .info
  | _ => .debug

/-- The wording of an event. -/
def message : Event → String
  | scanned _ => "scanned query string"
  | uncovered _ _ => "query text not covered by any term"
  | parsed _ _ _ _ => "parsed query"
  | bound _ _ _ => "bound predicate"
  | skippedKey _ => "skipping unknown sort field"
  | compiled _ _ => "compiled query"
  | listed _ _ => "built find statement"
  | loadedSchema path _ _ => "loaded schema from " ++ path
  | finished => "compiled query"

/-- The details of an event. -/
def details : Event → List (String × Value)
  | scanned tokens => [("tokens", .count tokens)]
  | uncovered gap text =>
    [("start", .count gap.start), ("end", .count gap.stop), ("text", .text text)]
  | parsed predicates keys limit offset =>
    [("predicates", .count predicates), ("sort", .count keys), ("limit", .count limit.toNat),
      ("offset", .count offset.toNat)]
  | bound column op place =>
    [("column", .text column), ("op", .text op), ("placeholder", .count place)]
  | skippedKey field => [("field", .text field)]
  | compiled predicates params =>
    [("predicates", .count predicates), ("params", .count params)]
  | listed params table => [("params", .count params), ("table", .text table)]
  | loadedSchema _ filterFields sortFields =>
    [("filter_fields", .count filterFields), ("sort_fields", .count sortFields)]
  | finished => []

end Event

/-- The events of parsing a text. A text without a term has none. -/
def ofParse (s : String) (maxDepth : Nat) : List Event :=
  let tokens := Token.scan s
  if tokens.isEmpty then []
  else
    .scanned tokens.length ::
      match Query.parse s maxDepth with
      | .ok q => [.parsed q.filter.predicateCount q.sort.length q.limit q.offset]
      | .error (.uncovered _ length) =>
        let gap := Token.firstGap length {} tokens
        [.uncovered gap (gap.slice s)]
      | .error _ => []

/-- The events of binding predicates when `place` parameters are bound: one for each up to the
first that does not fit. -/
def ofPredicates (fields : FilterFields) (place : Nat) : List Predicate → List Event
  | [] => []
  | p :: rest =>
    match Sql.Binding.ofPredicate fields p with
    | .error _ => []
    | .ok b => .bound b.column b.op (place + 1) :: ofPredicates fields (place + 1) rest

/-- The events of sort keys: one for each that is not sortable. -/
def ofKeys (fields : SortFields) (keys : List SortKey) : List Event :=
  (keys.filter fun k => (fields.find? k.field).isNone).map (.skippedKey ·.field)

/-- The events of lowering a query to its parts. -/
def ofFragment (schema : Schema) (q : Query) : List Event :=
  ofPredicates schema.filterFields 0 q.filter.predicates ++
    match Sql.Fragment.ofQuery schema q with
    | .error _ => []
    | .ok f =>
      ofKeys schema.sortFields q.sort ++ [.compiled q.filter.predicateCount f.params.length]

/-- The events of writing the statements of a listing. -/
def ofListing (schema : Schema) (l : Sql.Listing) : List Event :=
  ofPredicates schema.filterFields 0 (l.imposed.predicates ++ l.query.filter.predicates) ++
    match l.statements schema with
    | .error _ => []
    | .ok s => ofKeys schema.sortFields l.sort ++ [.listed s.params.length l.table]

end UrlFilter.Log
