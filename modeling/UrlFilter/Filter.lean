import UrlFilter.Connective
import UrlFilter.Operator

/-! Filters as trees: a filter is a list of terms, and a term is a predicate or a group, that
is a filter in parentheses. Each term carries its joining to the term before it. The functions
on trees come in pairs, one for a term and one for a list of terms. -/
namespace UrlFilter

/-- A comparison of a field with a value, both as the client wrote them. -/
structure Predicate where
  op : Operator
  field : String
  value : String
  deriving DecidableEq, Repr

/-- One entry of a filter. -/
inductive Term where
  | predicate (link : Connective) (test : Predicate)
  | group (link : Connective) (terms : List Term)
  deriving Repr

/-- Terms in order, each joined to the one before it. -/
abbrev Filter := List Term

namespace Term

/-- The joining to the term before. -/
def link : Term → Connective
  | predicate link _ => link
  | group link _ => link

/-- Whether the term is a filter in parentheses. -/
def isGroup : Term → Bool
  | predicate _ _ => false
  | group _ _ => true

/-- The predicate that the term is, if it is one. -/
def test? : Term → Option Predicate
  | predicate _ test => some test
  | group _ _ => none

/-- The terms in the parentheses, if the term is a group. -/
def terms? : Term → Option Filter
  | predicate _ _ => none
  | group _ terms => some terms

/-- The same term joined in another way. -/
def withLink (link : Connective) : Term → Term
  | predicate _ test => predicate link test
  | group _ terms => group link terms

mutual

/-- Decides whether two terms are the same tree. -/
def decEq : (s t : Term) → Decidable (s = t)
  | predicate a p, predicate b q =>
    if h : a = b ∧ p = q then .isTrue (by simp [h]) else .isFalse (by simpa using h)
  | group a ss, group b ts =>
    match decEqList ss ts with
    | .isTrue h => if k : a = b then .isTrue (by simp [h, k]) else .isFalse (by simp [k])
    | .isFalse h => .isFalse (by simp [h])
  | predicate _ _, group _ _ => .isFalse (by simp)
  | group _ _, predicate _ _ => .isFalse (by simp)

/-- Decides whether two lists of terms are the same. -/
def decEqList : (ss ts : List Term) → Decidable (ss = ts)
  | [], [] => .isTrue rfl
  | [], _ :: _ => .isFalse (by simp)
  | _ :: _, [] => .isFalse (by simp)
  | s :: ss, t :: ts =>
    match decEq s t, decEqList ss ts with
    | .isTrue h, .isTrue k => .isTrue (by simp [h, k])
    | .isFalse h, _ => .isFalse (by simp [h])
    | _, .isFalse k => .isFalse (by simp [k])

end

instance : DecidableEq Term := decEq

mutual

/-- The predicates of a term, from left to right over all levels. -/
def predicates : Term → List Predicate
  | predicate _ test => [test]
  | group _ terms => predicatesOf terms

/-- The predicates of a list of terms, from left to right over all levels. -/
def predicatesOf : List Term → List Predicate
  | [] => []
  | t :: ts => t.predicates ++ predicatesOf ts

end

mutual

/-- The number of groups around the innermost term, this one counted. -/
def nesting : Term → Nat
  | predicate _ _ => 0
  | group _ terms => nestingOf terms + 1

/-- The deepest nesting among a list of terms. -/
def nestingOf : List Term → Nat
  | [] => 0
  | t :: ts => max t.nesting (nestingOf ts)

end

/-- A term with its place in the tree: the indices that lead to it from the top. -/
structure Placed where
  path : List Nat
  term : Term
  deriving DecidableEq, Repr

mutual

/-- A term at the place `path` and all terms below it, each before those inside it. -/
def placed (path : List Nat) : Term → List Placed
  | predicate link test => [⟨path, predicate link test⟩]
  | group link terms => ⟨path, group link terms⟩ :: placedList path 0 terms

/-- The terms of a list at indices from `index` on below `path`, with all terms below them. -/
def placedList (path : List Nat) (index : Nat) : List Term → List Placed
  | [] => []
  | t :: ts => placed (path ++ [index]) t ++ placedList path (index + 1) ts

end

end Term

namespace Filter

/-- The predicates of a filter, from left to right over all levels. -/
def predicates (f : Filter) : List Predicate :=
  Term.predicatesOf f

/-- The number of predicates at all levels. -/
def predicateCount (f : Filter) : Nat :=
  f.predicates.length

/-- The number of groups around the innermost term. -/
def nesting (f : Filter) : Nat :=
  Term.nestingOf f

/-- Every term of the tree with its place, each before those inside it. -/
def placed (f : Filter) : List Term.Placed :=
  Term.placedList [] 0 f

/-- Drops a level of parentheses that holds one group and nothing else. -/
def collapse : Filter → Filter
  | [.group _ terms] => terms
  | f => f

end Filter
end UrlFilter
