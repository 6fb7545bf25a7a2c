/-! How a term is joined to the one before it. -/
namespace UrlFilter

/-- The joining of a term to its predecessor in the same list. -/
inductive Connective where
  /-- The first term of a list has no predecessor. -/
  | start
  | and
  | or
  deriving DecidableEq, Repr

namespace Connective

/-- The connective that a joining symbol of a query stands for. `start` has none. -/
def ofSymbol? : String → Option Connective
  | "&" => some and
  | "|" => some or
  | _ => none

/-- The joining symbol in a query. -/
def symbol? : Connective → Option String
  | start => none
  | and => some "&"
  | or => some "|"

/-- The name in JSON documents. -/
def name : Connective → String
  | start => "START"
  | and => "AND"
  | or => "OR"

/-- The connective with a name. -/
def ofName? : String → Option Connective
  | "START" => some start
  | "AND" => some and
  | "OR" => some or
  | _ => none

@[simp] theorem ofName?_name (c : Connective) : ofName? c.name = some c := by
  cases c <;> rfl

theorem ofSymbol?_eq_some_iff {s : String} {c : Connective} :
    ofSymbol? s = some c ↔ c.symbol? = some s := by
  constructor
  · intro h
    unfold ofSymbol? at h
    split at h <;> simp_all [symbol?] <;> subst h <;> rfl
  · intro h
    cases c <;> simp [symbol?] at h <;> subst h <;> rfl

end Connective
end UrlFilter
