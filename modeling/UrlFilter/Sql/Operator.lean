import UrlFilter.Operator
import UrlFilter.Schema

/-! Which operators a field takes, by the type of the field, and how they are written. -/
namespace UrlFilter

/-- Whether fields of the type take the operator. -/
def FieldType.allows : FieldType → Operator → Bool
  | .simple, op | .numeric, op | .time, op => op.isComparison
  | .string, _ => true
  | .bool, op => op.isEquality

/-- The operator in a statement. -/
def Operator.sql : Operator → String
  | equal => "="
  | notEqual => "!="
  | less => "<"
  | lessEqual => "<="
  | greater => ">"
  | greaterEqual => ">="
  | like => "LIKE"
  | notLike => "NOT LIKE"
  | likeNoCase => "ILIKE"
  | notLikeNoCase => "NOT ILIKE"
  | regex => "~"
  | notRegex => "!~"
  | regexNoCase => "~*"
  | notRegexNoCase => "!~*"

/-- The operator in a statement, if fields of the type take it. -/
def FieldType.sqlOperator? (t : FieldType) (op : Operator) : Option String :=
  if t.allows op then some op.sql else none

end UrlFilter
