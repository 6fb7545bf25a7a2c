import UrlFilter.Filter
import UrlFilter.Sql.Error
import UrlFilter.Sql.Operator
import UrlFilter.Sql.Parameter

/-! Filters as conditions of a statement. A condition is appended to a draft, which holds a
clause and the parameters bound so far, so that several filters can share one list of
parameters. Where a predicate does not fit the schema, the draft keeps what was written before
it. -/
namespace UrlFilter.Sql

/-- A comparison of a column with a parameter. -/
structure Binding where
  column : String
  op : String
  param : Parameter
  deriving DecidableEq, Repr

/-- The comparison that a predicate asks for. Of several faults the field's comes first, then
the operator's, then the value's. -/
def Binding.ofPredicate (fields : FilterFields) (p : Predicate) :
    Except LoweringError Binding :=
  match fields.find? p.field with
  | none => .error (.unknownField p.field)
  | some (column, type) =>
    match type.sqlOperator? p.op with
    | none => .error (.operatorNotAllowed p.op p.field type)
    | some op =>
      if type = .bool then
        match Parameter.bool? p.value with
        | some b => .ok ⟨column, op, .bool b⟩
        | none => .error (.notABool p.field p.value)
      else .ok ⟨column, op, .text p.value⟩

/-- A clause under construction, and the values of its placeholders. -/
structure Draft where
  clause : String := ""
  params : List Parameter := []
  deriving DecidableEq, Repr

/-- A draft, and why it is not finished, if it is not. -/
structure Lowered where
  draft : Draft
  error : Option LoweringError := none
  deriving DecidableEq, Repr

/-- How a term is joined to the one before it. -/
def joiner : Connective → String
  | .or => " OR "
  | .and | .start => " AND "

namespace Draft

/-- Appends text. -/
def write (d : Draft) (s : String) : Draft :=
  { d with clause := d.clause ++ s }

/-- Binds one more parameter and appends the comparison with its placeholder. -/
def bind (d : Draft) (b : Binding) : Draft where
  clause := d.clause ++ b.column ++ " " ++ b.op ++ " " ++
    Parameter.placeholder (d.params.length + 1)
  params := d.params ++ [b.param]

mutual

/-- Appends the condition of a term, without its joining. -/
def addTerm (fields : FilterFields) (d : Draft) : Term → Lowered
  | .predicate _ test =>
    match Binding.ofPredicate fields test with
    | .error e => ⟨d, some e⟩
    | .ok b => ⟨d.bind b, none⟩
  | .group _ terms =>
    match addTerms fields true (d.write "(") terms with
    | ⟨d, none⟩ => ⟨d.write ")", none⟩
    | failed => failed

/-- Appends the conditions of terms. The `first` of a list is not joined to anything. -/
def addTerms (fields : FilterFields) (first : Bool) (d : Draft) : List Term → Lowered
  | [] => ⟨d, none⟩
  | t :: rest =>
    match addTerm fields (if first then d else d.write (joiner t.link)) t with
    | ⟨d, none⟩ => addTerms fields false d rest
    | failed => failed

end

/-- Appends the condition of a filter. -/
def addFilter (fields : FilterFields) (d : Draft) (f : Filter) : Lowered :=
  addTerms fields true d f

end Draft
end UrlFilter.Sql
