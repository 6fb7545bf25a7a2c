import UrlFilter.Schema
import UrlFilter.SortKey

/-! Sort keys as an `ORDER BY` clause. Keys whose field is not sortable are passed over, and
nothing is written if none is left. -/
namespace UrlFilter.Sql

/-- A blank, if the clause holds text that does not end in one. -/
def gapAfter (clause : String) : String :=
  match clause.toList.getLast? with
  | none => ""
  | some c => if c = ' ' then "" else " "

/-- What stands before the column of a key: the keyword before the `first` that is written, a
comma before the others. -/
def beforeColumn (first : Bool) (clause : String) : String :=
  if first then gapAfter clause ++ "ORDER BY " else ", "

/-- What stands behind the column of a key. -/
def direction (k : SortKey) : String :=
  if k.descending then " DESC" else ""

/-- Appends keys to a clause; `first` says that none is written yet. -/
def addKeys (fields : SortFields) (first : Bool) (clause : String) : List SortKey → String
  | [] => clause
  | k :: rest =>
    match fields.find? k.field with
    | none => addKeys fields first clause rest
    | some column =>
      addKeys fields false (clause ++ beforeColumn first clause ++ column ++ direction k) rest

/-- Appends an `ORDER BY` clause for the keys. -/
def addOrder (fields : SortFields) (clause : String) (keys : List SortKey) : String :=
  addKeys fields true clause keys

end UrlFilter.Sql
