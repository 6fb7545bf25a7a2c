import UrlFilter.Filter

/-! What a filter means. Predicates are numbered from left to right over all levels of the tree,
and a valuation says which of them hold. A list of terms holds if all terms of one of its runs
do, where a run goes on until a term is joined by OR, and a group holds if its list does. -/
namespace UrlFilter

/-- Whether all values of a run hold, for one of the runs of a list. A run goes on as long as the
next value is not joined by OR; the joining of the first value counts for nothing. -/
def anyRunHolds (values : List (Connective × Bool)) : Bool :=
  (values.splitBy fun _ next => next.1 != .or).any fun run => run.all (·.2)

/-- Whether a list holds behind a run whose values so far come to `run`. -/
def holdsFrom (run : Bool) : List (Connective × Bool) → Bool
  | [] => run
  | (.or, v) :: values => run || holdsFrom v values
  | (_, v) :: values => holdsFrom (run && v) values

theorem holdsFrom_of_ne_or {link : Connective} (h : link ≠ .or) (run v : Bool)
    (values : List (Connective × Bool)) :
    holdsFrom run ((link, v) :: values) = holdsFrom (run && v) values := by
  cases link with
  | or => exact absurd rfl h
  | and | start => rfl

namespace Term

mutual

/-- Whether a term holds when `n` predicates stand before it. -/
def value (valuation : Nat → Bool) (n : Nat) : Term → Bool
  | predicate _ _ => valuation (n + 1)
  | group _ terms => anyRunHolds (values valuation n terms)

/-- Which terms of a list hold, with the joining of each. -/
def values (valuation : Nat → Bool) (n : Nat) : List Term → List (Connective × Bool)
  | [] => []
  | t :: ts => (t.link, value valuation n t) :: values valuation (n + t.predicates.length) ts

end

mutual

/-- Whether a group of the term holds nothing. -/
def hasEmptyGroup : Term → Bool
  | predicate _ _ => false
  | group _ terms => terms.isEmpty || anyHasEmptyGroup terms

/-- Whether a group in a list of terms holds nothing. -/
def anyHasEmptyGroup : List Term → Bool
  | [] => false
  | t :: ts => hasEmptyGroup t || anyHasEmptyGroup ts

end

end Term

namespace Filter

/-- Whether a filter holds when `n` predicates stand before it. The empty filter asks for
nothing. -/
def value (valuation : Nat → Bool) (n : Nat) (f : Filter) : Bool :=
  f.isEmpty || anyRunHolds (Term.values valuation n f)

/-- Whether a group at any level of the filter holds nothing. -/
def hasEmptyGroup (f : Filter) : Bool :=
  Term.anyHasEmptyGroup f

end Filter

private theorem any_splitBy_loop (a : Connective × Bool) (run : List (Connective × Bool))
    (runs : List (List (Connective × Bool))) (values : List (Connective × Bool)) :
    (List.splitBy.loop (fun _ next => next.1 != .or) values a run runs).any
        (fun run => run.all (·.2)) =
      (runs.any (fun run => run.all (·.2)) || holdsFrom (run.all (·.2) && a.2) values) := by
  induction values generalizing a run runs with
  | nil =>
    show (((a :: run).reverse :: runs).reverse).any (fun run => run.all (·.2)) = _
    simp [holdsFrom, Bool.or_comm]
  | cons b values ih =>
    obtain ⟨link, v⟩ := b
    cases link with
    | or =>
      -- the run that ends here is one of the alternatives
      show (List.splitBy.loop _ values (.or, v) [] ((a :: run).reverse :: runs)).any _ = _
      rw [ih]
      simp [holdsFrom, Bool.or_comm, Bool.or_assoc]
    | and =>
      show (List.splitBy.loop _ values (.and, v) (a :: run) runs).any _ = _
      rw [ih]
      simp [holdsFrom, Bool.and_comm]
    | start =>
      show (List.splitBy.loop _ values (.start, v) (a :: run) runs).any _ = _
      rw [ih]
      simp [holdsFrom, Bool.and_comm]

/-- The runs of a list can be read from left to right. -/
theorem anyRunHolds_cons (link : Connective) (v : Bool) (values : List (Connective × Bool)) :
    anyRunHolds ((link, v) :: values) = holdsFrom v values := by
  show (List.splitBy.loop (fun _ next => next.1 != .or) values (link, v) [] []).any
    (fun run => run.all (·.2)) = _
  rw [any_splitBy_loop]
  simp

/-- AND binds tighter than OR: in `a OR b AND c` the last two terms make up a run. -/
example (a b c : Bool) :
    anyRunHolds [(.start, a), (.or, b), (.and, c)] = (a || (b && c)) := by
  rw [anyRunHolds_cons]
  rfl

end UrlFilter
