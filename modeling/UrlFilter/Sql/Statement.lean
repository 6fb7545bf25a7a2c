import UrlFilter.Query
import UrlFilter.Sql.OrderBy
import UrlFilter.Sql.Where

/-! Queries as SQL, in parts or as whole statements. A listing has one statement for a page of
rows and one for the number of all rows; both have the same condition and share their
parameters. A filter that the server imposes comes first in the condition. -/
namespace UrlFilter.Sql

/-- The condition and the order of a query. Both may be empty. -/
structure Fragment where
  whereClause : String := ""
  orderBy : String := ""
  params : List Parameter := []
  deriving DecidableEq, Repr

/-- The condition and the order that a query asks for. -/
def Fragment.ofQuery (schema : Schema) (q : Query) : Except LoweringError Fragment :=
  match Draft.addFilter schema.filterFields {} q.filter with
  | ⟨_, some e⟩ => .error e
  | ⟨d, none⟩ => .ok ⟨d.clause, addOrder schema.sortFields "" q.sort, d.params⟩

/-- A request for the rows of a table. -/
structure Listing where
  table : String
  columns : String := "*"
  /-- A condition that the server imposes. -/
  imposed : Filter := []
  query : Query := {}
  /-- The order where the query asks for none. -/
  defaultSort : List SortKey := []
  deriving DecidableEq, Repr

/-- The statements of a listing, and their parameters. -/
structure Statements where
  select : String
  count : String
  params : List Parameter
  deriving DecidableEq, Repr

namespace Listing

/-- Appends a filter as one more conjunct, unless it is empty. -/
def addConjunct (fields : FilterFields) (d : Draft) (f : Filter) : Lowered :=
  if f.isEmpty then ⟨d, none⟩
  else
    match (d.write " AND (").addFilter fields f with
    | ⟨d, none⟩ => ⟨d.write ")", none⟩
    | failed => failed

/-- The condition of both statements. -/
def condition (fields : FilterFields) (l : Listing) : Lowered :=
  match addConjunct fields { clause := "WHERE 1=1" } l.imposed with
  | ⟨d, none⟩ => addConjunct fields d l.query.filter
  | failed => failed

/-- The keys of the order: those of the query if it has any. -/
def sort (l : Listing) : List SortKey :=
  if l.query.sort.isEmpty then l.defaultSort else l.query.sort

/-- A keyword with a count, unless the count is zero. -/
def page (keyword : String) (n : UInt64) : String :=
  if 0 < n then " " ++ keyword ++ " " ++ toString n.toNat else ""

/-- The statements of the listing. -/
def statements (schema : Schema) (l : Listing) : Except LoweringError Statements :=
  match l.condition schema.filterFields with
  | ⟨_, some e⟩ => .error e
  | ⟨d, none⟩ =>
    let rows := "SELECT " ++ l.columns ++ " FROM " ++ l.table ++ " " ++ d.clause
    .ok {
      select := addOrder schema.sortFields rows l.sort ++ page "LIMIT" l.query.limit ++
        page "OFFSET" l.query.offset
      count := "SELECT COUNT(*) AS count FROM " ++ l.table ++ " " ++ d.clause
      params := d.params }

end Listing
end UrlFilter.Sql
