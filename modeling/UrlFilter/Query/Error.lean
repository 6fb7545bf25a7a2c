import UrlFilter.Text.Quoted
import UrlFilter.Text.Utf8

/-! What can be wrong with a query text, and how it is worded. -/
namespace UrlFilter

/-- Why a text is no query. -/
inductive QueryError where
  /-- The text is not empty and holds no term. -/
  | noTerm
  /-- The terms make up only `covered` of the `length` bytes. -/
  | uncovered (covered length : Nat)
  /-- A term is joined by something other than `&` or `|`. -/
  | unknownLogic (symbol : String)
  /-- No operator has this spelling. -/
  | unknownOperator (symbol : String)
  /-- There are more than `max` parentheses around a term. -/
  | tooDeep (max : Nat)
  /-- A `)` closes nothing, or a `(` is not closed where the text ends. -/
  | unbalanced (position : Nat)
  /-- The value of `limit` or `offset` is no 64-bit count. -/
  | notACount (directive value : String)
  /-- The percent-decoded bytes are not UTF-8. -/
  | notUtf8 (fault : Text.Utf8Fault)
  deriving DecidableEq, Repr

/-- The wording of an error. -/
def QueryError.message : QueryError → String
  | noTerm => "could not parse query: no recognizable terms"
  | uncovered covered length =>
    "could not parse query: parsed " ++ toString covered ++ " of " ++ toString length ++
      " characters"
  | unknownLogic symbol => "invalid filter logic: " ++ Text.quoted symbol
  | unknownOperator symbol => "invalid filter operator: " ++ Text.quoted symbol
  | tooDeep max => "parentheses nested deeper than " ++ toString max ++ " levels"
  | unbalanced position => "unbalanced parentheses at position " ++ toString position
  | notACount directive value =>
    "invalid value for " ++ directive ++ ": " ++ Text.quoted value
  | notUtf8 fault => "could not decode query string: " ++ fault.message

end UrlFilter
