import UrlFilter.Filter
import UrlFilter.OptionSet
import UrlFilter.SortKey

/-! What one query string says: a filter, and the directives about order, options and page. -/
namespace UrlFilter

/-- The parts of a query beside its filter. A limit or an offset of zero asks for nothing. -/
structure Directives where
  /-- Most significant key first. -/
  sort : List SortKey := []
  options : OptionSet := ∅
  limit : UInt64 := 0
  offset : UInt64 := 0
  deriving DecidableEq, Repr

/-- Everything that one query string says. -/
structure Query extends Directives where
  filter : Filter := []
  deriving DecidableEq, Repr

/-- Whether the query asks for the option. -/
def Query.hasOption (q : Query) (name : String) : Bool :=
  q.options.contains name

end UrlFilter
