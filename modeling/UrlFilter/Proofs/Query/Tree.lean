import UrlFilter.Proofs.Query.OnePass

/-! How the tree of a filter comes about. `Stack.build?` reads the terms of a text with a stack of
open lists and nothing else: it knows no limit, no position and no error. The main statement,
`filter_eq_build`, says that a text which can be parsed has the filter that it builds, and that
the predicates of this filter are the terms of the text in their order, the directives left
out. -/
namespace UrlFilter

/-- Whether the term is a directive where it stands outside all groups. -/
def Lexeme.IsDirective (x : Lexeme) : Prop :=
  x.field = "limit" ∨ x.field = "offset" ∨ x.field = "sort" ∨ x.field = "option"

instance (x : Lexeme) : Decidable x.IsDirective :=
  inferInstanceAs (Decidable (_ ∨ _ ∨ _ ∨ _))

/-- The predicate that a term spells. -/
def Lexeme.predicate? (x : Lexeme) : Option Predicate :=
  (Operator.ofSpelling? x.op).map fun op => ⟨op, x.field, x.value⟩

/-- The terms that are no directives. Before the first of them `depth` groups are open. -/
def Lexeme.withoutDirectives : Nat → List Lexeme → List Lexeme
  | _, [] => []
  | depth, x :: xs =>
    if depth + x.opens = 0 ∧ x.IsDirective then
      withoutDirectives (depth + x.opens - x.closes) xs
    else x :: withoutDirectives (depth + x.opens - x.closes) xs

namespace Stack

/-- The joining of an entry behind the entries `before`: none at the start of a list, and else
what the symbol stands for. -/
def joining? (before : Filter) (symbol : String) : Option Connective :=
  if before = [] then some .start else Connective.ofSymbol? symbol

/-- Opens a group. -/
def push? (symbol : String) (s : Stack) : Option Stack :=
  (joining? s.top symbol).map fun link => ⟨[], (s.top, link) :: s.below⟩

/-- Closes the innermost group. -/
def pop? : Stack → Option Stack
  | ⟨_, []⟩ => none
  | ⟨terms, (before, link) :: below⟩ =>
    some ⟨before ++ [Term.group link terms.collapse], below⟩

/-- Adds the predicate of a term to the innermost list. -/
def add? (x : Lexeme) (s : Stack) : Option Stack :=
  if s.height = 0 ∧ x.IsDirective then some s
  else
    (joining? s.top x.logic).bind fun link =>
      x.predicate?.map fun test => ⟨s.top ++ [Term.predicate link test], s.below⟩

/-- Does one thing `count` times. -/
def times? (f : Stack → Option Stack) : Nat → Stack → Option Stack
  | 0, s => some s
  | count + 1, s => (f s).bind (times? f count)

/-- Reads one term: its opening parentheses, what it says, and its closing parentheses. -/
def step? (x : Lexeme) (s : Stack) : Option Stack :=
  (times? (push? x.logic) x.opens s).bind fun s =>
    (add? x s).bind fun s => times? pop? x.closes s

/-- Reads terms from left to right. -/
def build? : List Lexeme → Stack → Option Stack
  | [], s => some s
  | x :: xs, s => (step? x s).bind (build? xs)

variable {maxDepth length : Nat} {s t : Stack} {p : Progress} {token : Token} {rest : List Token}

/-- What each repetition carries on holds in the end; `n` is how many of them are left. -/
theorem times_induction {f : Stack → Option Stack} {motive : Nat → Stack → Prop}
    (step : ∀ n s t, f s = some t → motive (n + 1) s → motive n t) {count : Nat}
    (h : times? f count s = some t) (hs : motive count s) : motive 0 t := by
  induction count generalizing s with
  | zero =>
    cases h
    exact hs
  | succ count ih =>
    obtain ⟨u, hu, ht⟩ := Option.bind_eq_some_iff.mp h
    exact ih ht (step count s u hu hs)

/-! ## The pass builds the tree -/

theorem joining?_of_link {x : Lexeme} {before : Filter} {link : Connective}
    (h : x.link before = .ok link) : joining? before x.logic = some link := by
  unfold Lexeme.link at h
  unfold joining?
  split at h
  · rename_i hb
    rw [if_pos (List.isEmpty_iff.mp hb)]
    simpa using h
  · rename_i hb
    rw [if_neg (by simpa using hb)]
    split at h
    · rename_i link' hl
      cases h
      exact hl
    · simp at h

theorem predicate?_of_operator {x : Lexeme} {op : Operator} (h : x.operator = .ok op) :
    x.predicate? = some ⟨op, x.field, x.value⟩ := by
  unfold Lexeme.operator at h
  unfold Lexeme.predicate?
  split at h
  · rename_i op' ho
    cases h
    rw [ho]
    rfl
  · simp at h

theorem isDirective_of_update? {d d' : Directives} {x : Lexeme}
    (h : d.update? x = .ok (some d')) : x.IsDirective := by
  unfold Directives.update? at h
  unfold Lexeme.IsDirective
  by_cases hl : x.field = "limit"
  · exact .inl hl
  · rw [if_neg hl] at h
    by_cases ho : x.field = "offset"
    · exact .inr (.inl ho)
    · rw [if_neg ho] at h
      by_cases hs : x.field = "sort"
      · exact .inr (.inr (.inl hs))
      · rw [if_neg hs] at h
        by_cases hp : x.field = "option"
        · exact .inr (.inr (.inr hp))
        · rw [if_neg hp] at h
          simp at h

theorem not_isDirective_of_update? {d : Directives} {x : Lexeme}
    (h : d.update? x = .ok none) : ¬ x.IsDirective := by
  unfold Directives.update? at h
  unfold Lexeme.IsDirective
  split at h
  · split at h <;> simp at h
  · rename_i hl
    split at h
    · split at h <;> simp at h
    · rename_i ho
      split at h
      · simp at h
      · rename_i hs
        split at h
        · simp at h
        · rename_i hp
          simp [hl, ho, hs, hp]

theorem push_of_openGroups {count : Nat}
    (h : s.openGroups maxDepth token count = .ok t) :
    times? (push? token.logic) count s = some t := by
  induction count generalizing s with
  | zero =>
    rw [openGroups] at h
    cases h
    rfl
  | succ count ih =>
    rw [openGroups] at h
    split at h
    · simp at h
    · rename_i link hl
      split at h
      · simp at h
      · rw [times?, push?, joining?_of_link hl]
        exact ih h

theorem pop_of_closeGroups {position count : Nat}
    (h : s.closeGroups position count = .ok t) : times? pop? count s = some t := by
  induction count generalizing s with
  | zero =>
    rw [closeGroups] at h
    cases h
    rfl
  | succ count ih =>
    obtain ⟨terms, below⟩ := s
    cases below with
    | nil => simp [closeGroups] at h
    | cons frame below => exact ih h

theorem add_of_addTerm {q : Progress} (h : s.addTerm p token = .ok (t, q)) :
    add? token.toLexeme s = some t := by
  obtain ⟨link, op, terms, hl, ho, hr, rfl⟩ := addTerm_eq_ok h
  unfold add?
  rcases readTerm_eq_ok hr with ⟨h0, d, hd, rfl, -⟩ | ⟨hd, -, rfl⟩
  · rw [if_pos ⟨h0, isDirective_of_update? hd⟩]
  · have hno : ¬ (s.height = 0 ∧ token.toLexeme.IsDirective) := by
      rintro ⟨h0, hdir⟩
      exact not_isDirective_of_update? (hd h0) hdir
    rw [if_neg hno, joining?_of_link hl, predicate?_of_operator ho]
    rfl

theorem step_of_read {q : Progress} (h : s.read maxDepth token rest p = .ok (t, q)) :
    step? token.toLexeme s = some t := by
  obtain ⟨s₁, s₂, q₁, h₁, h₂, h₃, -⟩ := read_eq_ok h
  obtain ⟨d, rfl⟩ := progress_of_addTerm h₂
  have hpop := pop_of_closeGroups h₃
  unfold step?
  rw [push_of_openGroups h₁]
  dsimp only [Option.bind_some]
  rw [add_of_addTerm h₂]
  exact hpop

theorem build_of_run {tokens : List Token} {r : Reading}
    (h : s.run maxDepth length tokens p = .ok r) :
    build? (tokens.map Token.toLexeme) s = some ⟨r.1, []⟩ := by
  induction tokens generalizing s p with
  | nil =>
    obtain ⟨top, below⟩ := s
    rw [run] at h
    split at h
    · rename_i h0
      have hb : below = [] := List.length_eq_zero_iff.mp h0
      cases h
      rw [hb]
      rfl
    · simp at h
  | cons token rest ih =>
    rw [run] at h
    split at h
    · simp at h
    · rename_i t q hr
      rw [List.map_cons, build?, step_of_read hr]
      exact ih h

end Stack

/-! ## The predicates in their order -/

@[simp] theorem Term.predicatesOf_append (ts us : List Term) :
    predicatesOf (ts ++ us) = predicatesOf ts ++ predicatesOf us := by
  induction ts with
  | nil => rfl
  | cons t ts ih => rw [List.cons_append, predicatesOf, predicatesOf, ih, List.append_assoc]

theorem Filter.predicatesOf_collapse (f : Filter) :
    Term.predicatesOf f.collapse = Term.predicatesOf f := by
  unfold collapse
  split
  · simp [Term.predicatesOf, Term.predicates]
  · rfl

namespace Stack

/-- The predicates of the lists around the innermost one. -/
def predicatesBelow : List (Filter × Connective) → List Predicate
  | [] => []
  | (before, _) :: below => predicatesBelow below ++ Term.predicatesOf before

/-- All predicates that are read, from left to right. -/
def predicates (s : Stack) : List Predicate :=
  predicatesBelow s.below ++ Term.predicatesOf s.top

variable {s t : Stack}

theorem predicates_push {symbol : String} (h : push? symbol s = some t) :
    t.predicates = s.predicates ∧ t.height = s.height + 1 := by
  unfold push? at h
  obtain ⟨link, -, rfl⟩ := Option.map_eq_some_iff.mp h
  refine ⟨?_, rfl⟩
  show (predicatesBelow s.below ++ Term.predicatesOf s.top) ++ [] = s.predicates
  rw [List.append_nil]
  rfl

theorem predicates_pop (h : pop? s = some t) :
    t.predicates = s.predicates ∧ t.height + 1 = s.height := by
  obtain ⟨terms, below⟩ := s
  cases below with
  | nil => simp [pop?] at h
  | cons frame below =>
    cases h
    refine ⟨?_, rfl⟩
    show predicatesBelow below ++ Term.predicatesOf (frame.1 ++ [Term.group frame.2 _]) =
      (predicatesBelow below ++ Term.predicatesOf frame.1) ++ Term.predicatesOf terms
    rw [Term.predicatesOf_append, Term.predicatesOf, Term.predicates,
      Filter.predicatesOf_collapse]
    simp [Term.predicatesOf]

theorem predicates_times_push {symbol : String} {count : Nat}
    (h : times? (push? symbol) count s = some t) :
    t.predicates = s.predicates ∧ t.height = s.height + count := by
  refine times_induction
    (motive := fun n u => u.predicates = s.predicates ∧ u.height + n = s.height + count)
    ?_ h ⟨rfl, rfl⟩
  intro n u v huv hu
  obtain ⟨hp, hh⟩ := predicates_push huv
  exact ⟨hp.trans hu.1, by omega⟩

theorem predicates_times_pop {count : Nat} (h : times? pop? count s = some t) :
    t.predicates = s.predicates ∧ t.height + count = s.height := by
  refine times_induction
    (motive := fun n u => u.predicates = s.predicates ∧ u.height + count = s.height + n)
    ?_ h ⟨rfl, rfl⟩
  intro n u v huv hu
  obtain ⟨hp, hh⟩ := predicates_pop huv
  exact ⟨hp.trans hu.1, by omega⟩

/-- A term adds its own predicate and no other, and a directive adds none. -/
theorem predicates_add {x : Lexeme} (h : add? x s = some t) :
    t.height = s.height ∧
      ((s.height = 0 ∧ x.IsDirective) ∧ t.predicates = s.predicates ∨
        ¬ (s.height = 0 ∧ x.IsDirective) ∧ ∃ test, x.predicate? = some test ∧
          t.predicates = s.predicates ++ [test]) := by
  unfold add? at h
  by_cases hd : s.height = 0 ∧ x.IsDirective
  · rw [if_pos hd] at h
    cases h
    exact ⟨rfl, .inl ⟨hd, rfl⟩⟩
  · rw [if_neg hd] at h
    obtain ⟨link, -, h⟩ := Option.bind_eq_some_iff.mp h
    obtain ⟨test, ht, rfl⟩ := Option.map_eq_some_iff.mp h
    refine ⟨rfl, .inr ⟨hd, test, ht, ?_⟩⟩
    show predicatesBelow s.below ++ Term.predicatesOf (s.top ++ [Term.predicate link test]) =
      (predicatesBelow s.below ++ Term.predicatesOf s.top) ++ [test]
    rw [Term.predicatesOf_append, List.append_assoc]
    rfl

/-- Reading terms appends the predicates that they spell. -/
theorem predicates_build {xs : List Lexeme} (h : build? xs s = some t) :
    t.predicates.map some =
      s.predicates.map some ++ (Lexeme.withoutDirectives s.height xs).map Lexeme.predicate? := by
  induction xs generalizing s with
  | nil =>
    cases h
    simp [Lexeme.withoutDirectives]
  | cons x xs ih =>
    obtain ⟨s', h, ht⟩ := Option.bind_eq_some_iff.mp h
    obtain ⟨s₁, h₁, h⟩ := Option.bind_eq_some_iff.mp h
    obtain ⟨s₂, h₂, h₃⟩ := Option.bind_eq_some_iff.mp h
    obtain ⟨hp₁, hh₁⟩ := predicates_times_push h₁
    obtain ⟨hh₂, hcase⟩ := predicates_add h₂
    obtain ⟨hp₃, hh₃⟩ := predicates_times_pop h₃
    -- the height is what tells directives from predicates, so it is followed along
    have hheight : s'.height = s.height + x.opens - x.closes := by omega
    rw [ih ht, hp₃, Lexeme.withoutDirectives, ← hh₁, hheight, hh₁]
    rcases hcase with ⟨hd, hp₂⟩ | ⟨hd, test, htest, hp₂⟩
    · rw [hh₁] at hd
      rw [if_pos hd, hp₂, hp₁]
    · rw [hh₁] at hd
      rw [if_neg hd, hp₂, hp₁, List.map_append, List.map_cons, List.map_cons, htest,
        List.append_assoc]
      rfl

end Stack

theorem eq_ok_of_toOption {ε α : Type} {e : Except ε α} {a : α} (h : e.toOption = some a) :
    e = .ok a := by
  cases e with
  | error e => simp [Except.toOption] at h
  | ok b => simpa [Except.toOption] using h

namespace Query

variable {s : String} {maxDepth : Nat} {q : Query}

theorem build_of_parse (h : parse s maxDepth = .ok q) :
    Stack.build? ((Token.scan s).map Token.toLexeme) {} = some ⟨q.filter, []⟩ := by
  obtain ⟨-, -, p, hrun, -⟩ := parse_eq_ok_iff.mp h
  exact Stack.build_of_run hrun

/-- The terms of a text that are no directives, in their order. -/
def tested (s : String) : List Lexeme :=
  Lexeme.withoutDirectives 0 ((Token.scan s).map Token.toLexeme)

theorem predicates_of_parse (h : parse s maxDepth = .ok q) :
    q.filter.predicates.map some = (tested s).map Lexeme.predicate? :=
  Stack.predicates_build (build_of_parse h)

/-- The filter of a text that can be parsed is the tree that its terms build, read once from left
to right. Its predicates are the terms of the text in their order, the directives left out. -/
theorem filter_eq_build (s : String) (maxDepth : Nat) (q : Query)
    (h : parse s maxDepth = .ok q) :
    Stack.build? ((Token.scan s).map Token.toLexeme) {} = some ⟨q.filter, []⟩ ∧
      q.filter.predicates.map some =
        (Lexeme.withoutDirectives 0 ((Token.scan s).map Token.toLexeme)).map
          Lexeme.predicate? :=
  ⟨build_of_parse h, predicates_of_parse h⟩

/-- Two pairs of parentheses around one term leave one group, and a directive leaves nothing. -/
theorem filter_eq_build_stacked :
    ∃ q, parse "a=1|((b=2))&sort=c" 32 = .ok q ∧
      q.filter = [.predicate .start ⟨.equal, "a", "1"⟩,
        .group .or [.predicate .start ⟨.equal, "b", "2"⟩]] ∧
      Stack.build? ((Token.scan "a=1|((b=2))&sort=c").map Token.toLexeme) {} =
        some ⟨q.filter, []⟩ ∧
      q.filter.predicates.map some =
        (Lexeme.withoutDirectives 0
          ((Token.scan "a=1|((b=2))&sort=c").map Token.toLexeme)).map Lexeme.predicate? := by
  have h : parse "a=1|((b=2))&sort=c" 32 = .ok {
      sort := [⟨"c", false⟩]
      filter := [.predicate .start ⟨.equal, "a", "1"⟩,
        .group .or [.predicate .start ⟨.equal, "b", "2"⟩]] } :=
    eq_ok_of_toOption (by decide +kernel)
  exact ⟨_, h, rfl, filter_eq_build _ 32 _ h⟩

end Query
end UrlFilter
