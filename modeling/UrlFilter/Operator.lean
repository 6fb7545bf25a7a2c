/-! Comparison operators and their spellings. Sixteen spellings stand for fourteen operators:
`=<` and `=>` are second spellings of `<=` and `>=`. Spellings are tried longest first, so
that no spelling hides a longer one that it begins. -/
namespace UrlFilter

/-- What a predicate asks of a field and a value. -/
inductive Operator where
  | equal
  | notEqual
  | less
  | lessEqual
  | greater
  | greaterEqual
  /-- Case-sensitive wildcard match. -/
  | like
  | notLike
  /-- Wildcard match that ignores case. -/
  | likeNoCase
  | notLikeNoCase
  /-- Case-sensitive regular expression match. -/
  | regex
  | notRegex
  /-- Regular expression match that ignores case. -/
  | regexNoCase
  | notRegexNoCase
  deriving DecidableEq, Repr

namespace Operator

/-- Every operator, once. -/
def all : List Operator :=
  [equal, notEqual, less, lessEqual, greater, greaterEqual, like, notLike, likeNoCase,
    notLikeNoCase, regex, notRegex, regexNoCase, notRegexNoCase]

/-- Every spelling, in the order in which a reader tries them. -/
def spellings : List String :=
  ["!=~~", "=~~", "!=~", "!:~", "=~", "!:", ":~", "<=", "=<", ">=", "=>", "!=", ":", "<", ">",
    "="]

/-- The operator that a text spells. -/
def ofSpelling? : String → Option Operator
  | "=" => some equal
  | "!=" => some notEqual
  | "<" => some less
  | "<=" | "=<" => some lessEqual
  | ">" => some greater
  | ">=" | "=>" => some greaterEqual
  | "=~" => some like
  | "!=~" => some notLike
  | "=~~" => some likeNoCase
  | "!=~~" => some notLikeNoCase
  | ":" => some regex
  | "!:" => some notRegex
  | ":~" => some regexNoCase
  | "!:~" => some notRegexNoCase
  | _ => none

/-- The canonical spelling. -/
def symbol : Operator → String
  | equal => "="
  | notEqual => "!="
  | less => "<"
  | lessEqual => "<="
  | greater => ">"
  | greaterEqual => ">="
  | like => "=~"
  | notLike => "!=~"
  | likeNoCase => "=~~"
  | notLikeNoCase => "!=~~"
  | regex => ":"
  | notRegex => "!:"
  | regexNoCase => ":~"
  | notRegexNoCase => "!:~"

/-- `=` and `!=`. -/
def isEquality : Operator → Bool
  | equal | notEqual => true
  | _ => false

/-- The six operators of equality and order. -/
def isComparison : Operator → Bool
  | equal | notEqual | less | lessEqual | greater | greaterEqual => true
  | _ => false

/-- The operators that match a pattern. -/
def isPattern (op : Operator) : Bool :=
  !op.isComparison

theorem mem_all (op : Operator) : op ∈ all := by
  cases op <;> decide

@[simp] theorem ofSpelling?_symbol (op : Operator) : ofSpelling? op.symbol = some op := by
  cases op <;> rfl

theorem symbol_mem_spellings (op : Operator) : op.symbol ∈ spellings := by
  cases op <;> decide

theorem isSome_ofSpelling? {s : String} (h : s ∈ spellings) : (ofSpelling? s).isSome := by
  revert s
  decide

end Operator
end UrlFilter
