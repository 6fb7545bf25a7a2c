import UrlFilter.Json.Write
import UrlFilter.Sql.Statement

/-! Lowered queries as JSON, with the members in the order of their names. -/
namespace UrlFilter.Sql

/-- A parameter as a string or a truth value. -/
def Parameter.toJson : Parameter → Json
  | text s => .text s
  | bool b => .bool b

/-- Parameters in the order of their placeholders. -/
def Parameter.listToJson (params : List Parameter) : Json :=
  .array (params.map toJson)

/-- A fragment as an object. -/
def Fragment.toJson (f : Fragment) : Json :=
  .record [("order_by", .text f.orderBy), ("params", Parameter.listToJson f.params),
    ("where", .text f.whereClause)]

/-- Statements as an object. -/
def Statements.toJson (s : Statements) : Json :=
  .record [("count", .text s.count), ("params", Parameter.listToJson s.params),
    ("select", .text s.select)]

end UrlFilter.Sql
