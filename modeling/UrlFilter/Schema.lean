import UrlFilter.KeyOrder

/-! Schemas: which fields a client may filter and sort by. A name may be qualified, as in
`thing.name`, and a client may write its last part alone. A lookup prefers the exact name, and
else takes the first name that ends in a dot and the name looked for. -/
namespace UrlFilter

/-- The class of a field's values. It decides which operators the field takes. -/
inductive FieldType where
  /-- A value that is compared and nothing else. -/
  | simple
  | string
  | numeric
  | time
  | bool
  deriving DecidableEq, Repr

namespace FieldType

/-- Every type, once. -/
def all : List FieldType := [simple, string, numeric, time, bool]

/-- The name in JSON documents. -/
def name : FieldType → String
  | simple => "simple"
  | string => "string"
  | numeric => "numeric"
  | time => "time"
  | bool => "bool"

/-- The type with a name. -/
def ofName? : String → Option FieldType
  | "simple" => some simple
  | "string" => some string
  | "numeric" => some numeric
  | "time" => some time
  | "bool" => some bool
  | _ => none

@[simp] theorem ofName?_name (t : FieldType) : ofName? t.name = some t := by
  cases t <;> rfl

end FieldType

/-- Whether `column` is `search` qualified: whether it ends in a dot and `search`. -/
def isQualified (column search : String) : Bool :=
  ('.' :: search.toList).isSuffixOf column.toList

/-- The filterable fields with their types, in increasing order of their names. -/
structure FilterFields where
  entries : List (String × FieldType)
  ordered : entries.Pairwise fun a b => a.1 < b.1
  deriving DecidableEq, Repr

namespace FilterFields

/-- No filterable field. -/
def empty : FilterFields := ⟨[], .nil⟩

instance : EmptyCollection FilterFields := ⟨empty⟩
instance : Inhabited FilterFields := ⟨empty⟩

/-- The fields with one more, or with a new type for one that is there. -/
def insert (fields : FilterFields) (name : String) (type : FieldType) : FilterFields :=
  ⟨insertByKey Prod.fst (name, type) fields.entries, pairwise_insertByKey fields.ordered⟩

/-- The fields of a list. Of two entries with one name the later counts. -/
def ofList (entries : List (String × FieldType)) : FilterFields :=
  entries.foldl (fun fields entry => fields.insert entry.1 entry.2) empty

/-- The field that a client's name stands for, and its type. -/
def find? (fields : FilterFields) (search : String) : Option (String × FieldType) :=
  match fields.entries.find? (·.1 == search) with
  | some entry => some entry
  | none => fields.entries.find? fun entry => isQualified entry.1 search

/-- The number of fields. -/
def size (fields : FilterFields) : Nat :=
  fields.entries.length

/-- Whether there is no field. -/
def isEmpty (fields : FilterFields) : Bool :=
  fields.entries.isEmpty

end FilterFields

/-- The sortable columns, in the order of their declaration. -/
structure SortFields where
  columns : List String := []
  deriving DecidableEq, Repr

namespace SortFields

/-- The column that a client's name stands for. -/
def find? (fields : SortFields) (search : String) : Option String :=
  match fields.columns.find? (· == search) with
  | some column => some column
  | none => fields.columns.find? (isQualified · search)

/-- The number of columns. -/
def size (fields : SortFields) : Nat :=
  fields.columns.length

/-- Whether there is no column. -/
def isEmpty (fields : SortFields) : Bool :=
  fields.columns.isEmpty

end SortFields

/-- What a client may filter and sort by. -/
structure Schema where
  filterFields : FilterFields := ∅
  sortFields : SortFields := {}
  deriving DecidableEq, Repr

end UrlFilter
