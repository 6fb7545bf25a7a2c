/-! Sort keys: a field and a direction. In a list of entries separated by commas, an entry with
a leading minus sign sorts in descending order. -/
namespace UrlFilter

/-- A field to sort by and whether its order is descending. -/
structure SortKey where
  field : String
  descending : Bool
  deriving DecidableEq, Repr

/-- The entries of a list separated by commas, the empty ones left out. -/
def listEntries (s : String) : List String :=
  ((s.toList.splitOn ',').filter (· ≠ [])).map String.ofList

namespace SortKey

/-- The sort key that an entry denotes. A minus sign alone is a field name. -/
def ofEntry (entry : String) : SortKey :=
  match entry.toList with
  | '-' :: c :: rest => ⟨String.ofList (c :: rest), true⟩
  | _ => ⟨entry, false⟩

/-- The sort keys of a list of entries. -/
def ofList (s : String) : List SortKey :=
  (listEntries s).map ofEntry

end SortKey
end UrlFilter
