import UrlFilter.Operator
import UrlFilter.Schema
import UrlFilter.Text.Quoted

/-! Why a predicate does not fit a schema. Messages name fields as the client wrote them, and
never a column. -/
namespace UrlFilter.Sql

/-- Why a filter has no SQL against a schema. -/
inductive LoweringError where
  /-- No field has this name. -/
  | unknownField (field : String)
  /-- Fields of this type do not take the operator. -/
  | operatorNotAllowed (op : Operator) (field : String) (type : FieldType)
  /-- The value is no truth value, and the field is one. -/
  | notABool (field value : String)
  deriving DecidableEq, Repr

/-- The wording of an error. -/
def LoweringError.message : LoweringError → String
  | unknownField field => "could not find field: " ++ field
  | operatorNotAllowed op field _ => "invalid operator " ++ op.symbol ++ " for field " ++ field
  | notABool field value => "invalid value for field " ++ field ++ ": " ++ Text.quoted value

end UrlFilter.Sql
