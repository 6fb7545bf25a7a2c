import UrlFilter.Proofs.Query.Deletion

/-! Reading behind other terms. A reader that has closed all groups reads on as if nothing had been
read, save that the first entry it finds is joined to what stands before it. `Stack.onto` puts terms
before the outermost of the open lists, each step of the reader commutes with it, and so does a
whole reading: `Stack.build_onto`. -/
namespace UrlFilter

/-- The filter with its first term joined by `link`. -/
def Filter.relink (link : Connective) : Filter → Filter
  | [] => []
  | t :: ts => t.withLink link :: ts

theorem Filter.relink_append_singleton (link : Connective) (f : Filter) (t : Term) :
    relink link (f ++ [t]) = relink link f ++ [if f = [] then t.withLink link else t] := by
  cases f with
  | nil => rfl
  | cons u us => rfl

namespace Stack

variable {s t : Stack} {x : Lexeme} {xs : List Lexeme} {symbol : String}

theorem build_append (xs ys : List Lexeme) (s : Stack) :
    build? (xs ++ ys) s = (build? xs s).bind (build? ys) := by
  induction xs generalizing s with
  | nil => rfl
  | cons x xs ih =>
    rw [List.cons_append, build?, build?, Option.bind_assoc]
    exact congrArg _ (funext ih)

/-! ## The symbol before the first entry of a list -/

theorem push_of_top_nil (h : s.top = []) :
    push? symbol s = some ⟨[], ([], .start) :: s.below⟩ := by
  rw [push?, h]
  rfl

theorem times_push_of_top_nil (count : Nat) (h : s.top = []) :
    ∃ t, t.top = [] ∧ ∀ symbol, times? (push? symbol) count s = some t := by
  induction count generalizing s with
  | zero => exact ⟨s, h, fun _ => rfl⟩
  | succ count ih =>
    obtain ⟨t, ht, hpush⟩ := ih (s := ⟨[], ([], .start) :: s.below⟩) rfl
    refine ⟨t, ht, fun symbol => ?_⟩
    rw [times?, push_of_top_nil h]
    exact hpush symbol

/-- In an empty list the symbol before the first entry does not matter. -/
theorem step_of_top_nil (h : s.top = []) (symbol : String) :
    step? { x with logic := symbol } s = step? x s := by
  obtain ⟨t, ht, hpush⟩ := times_push_of_top_nil x.opens h
  have hadd : add? { x with logic := symbol } t = add? x t := by
    unfold add? joining?
    rw [if_pos ht, if_pos ht]
    rfl
  unfold step?
  rw [hpush, hpush, Option.bind_some, Option.bind_some, hadd]

/-! ## Reading behind other terms -/

/-- The lists around the innermost one, with `base` before the outermost of them. Where a group is
open as the first entry of that list, the joining of this group is the one to be replaced. -/
def ontoBelow (base : Filter) (link : Connective) :
    List (Filter × Connective) → List (Filter × Connective)
  | [] => []
  | [(before, inner)] => [(base ++ before.relink link, if before = [] then link else inner)]
  | frame :: next :: below => frame :: ontoBelow base link (next :: below)

/-- The open lists, with `base` before the outermost of them and the first entry of this list joined
by `link`. -/
def onto (base : Filter) (link : Connective) : Stack → Stack
  | ⟨terms, []⟩ => ⟨base ++ terms.relink link, []⟩
  | ⟨terms, frame :: below⟩ => ⟨terms, ontoBelow base link (frame :: below)⟩

theorem length_ontoBelow (base : Filter) (link : Connective)
    (below : List (Filter × Connective)) :
    (ontoBelow base link below).length = below.length := by
  induction below with
  | nil => rfl
  | cons frame below ih =>
    cases below with
    | nil => rfl
    | cons next below => exact congrArg Nat.succ ih

@[simp] theorem height_onto (base : Filter) (link : Connective) (s : Stack) :
    (s.onto base link).height = s.height := by
  obtain ⟨terms, below⟩ := s
  cases below with
  | nil => rfl
  | cons frame below => exact length_ontoBelow base link (frame :: below)

/-- Whether the symbol joins by `link` what would be the first entry of the outermost list. -/
def Joins (link : Connective) (symbol : String) (s : Stack) : Prop :=
  s = {} → Connective.ofSymbol? symbol = some link

variable {base : Filter} {link : Connective}

theorem joining?_relink {terms : Filter} {inner : Connective} (hbase : base ≠ [])
    (hjoins : Joins link symbol ⟨terms, []⟩) (h : joining? terms symbol = some inner) :
    joining? (base ++ terms.relink link) symbol =
      some (if terms = [] then link else inner) := by
  have hne : base ++ terms.relink link ≠ [] := by simp [hbase]
  rw [joining?, if_neg hne]
  by_cases hterms : terms = []
  · rw [if_pos hterms]
    exact hjoins (by rw [hterms])
  · rw [joining?, if_neg hterms] at h
    rw [if_neg hterms, h]

theorem push_onto (hbase : base ≠ []) (hjoins : Joins link symbol s)
    (h : push? symbol s = some t) :
    push? symbol (s.onto base link) = some (t.onto base link) ∧ t ≠ {} := by
  obtain ⟨terms, below⟩ := s
  obtain ⟨inner, hinner, rfl⟩ := Option.map_eq_some_iff.mp h
  refine ⟨?_, by simp⟩
  cases below with
  | nil =>
    rw [onto, push?, joining?_relink hbase hjoins hinner]
    rfl
  | cons frame below =>
    rw [onto, push?]
    exact congrArg (Option.map _) hinner

theorem pop_onto (h : pop? s = some t) :
    pop? (s.onto base link) = some (t.onto base link) ∧ t ≠ {} := by
  obtain ⟨terms, below⟩ := s
  cases below with
  | nil => cases h
  | cons frame below =>
    obtain ⟨before, inner⟩ := frame
    cases h
    refine ⟨?_, by simp⟩
    cases below with
    | nil =>
      show some (Stack.mk ((base ++ before.relink link) ++
        [Term.group (if before = [] then link else inner) terms.collapse]) []) = _
      rw [onto, Filter.relink_append_singleton, List.append_assoc]
      by_cases hbefore : before = []
      · simp [hbefore, Term.withLink]
      · simp [hbefore]
    | cons next below => rfl

/-- A term that is no directive is added behind other terms as it is added by itself. -/
theorem add_onto (hbase : base ≠ []) (hjoins : Joins link x.logic s)
    (hno : ¬ (s.height = 0 ∧ x.IsDirective)) (h : add? x s = some t) :
    add? x (s.onto base link) = some (t.onto base link) ∧ t ≠ {} := by
  rw [add?, if_neg hno] at h
  obtain ⟨inner, hinner, h⟩ := Option.bind_eq_some_iff.mp h
  obtain ⟨test, htest, rfl⟩ := Option.map_eq_some_iff.mp h
  refine ⟨?_, by simp⟩
  rw [add?, height_onto, if_neg hno, htest]
  obtain ⟨terms, below⟩ := s
  cases below with
  | nil =>
    rw [onto, joining?_relink hbase hjoins hinner, onto, Filter.relink_append_singleton]
    by_cases hterms : terms = []
    · simp [hterms, Term.withLink]
    · simp [hterms]
  | cons frame below =>
    rw [onto, hinner]
    rfl

/-- What a function does behind other terms it does there many times. -/
theorem times_onto {f : Stack → Option Stack} {motive : Stack → Prop} {count : Nat}
    (step : ∀ s t, motive s → f s = some t →
      f (s.onto base link) = some (t.onto base link) ∧ motive t)
    (hs : motive s) (h : times? f count s = some t) :
    times? f count (s.onto base link) = some (t.onto base link) ∧ motive t := by
  induction count generalizing s with
  | zero =>
    cases h
    exact ⟨rfl, hs⟩
  | succ count ih =>
    obtain ⟨u, hu, ht⟩ := Option.bind_eq_some_iff.mp h
    obtain ⟨honto, hmotive⟩ := step s u hs hu
    rw [times?, honto]
    exact ih hmotive ht

theorem step_onto (hbase : base ≠ []) (hjoins : Joins link x.logic s)
    (hno : ¬ (s.height + x.opens = 0 ∧ x.IsDirective)) (h : step? x s = some t) :
    step? x (s.onto base link) = some (t.onto base link) ∧ t ≠ {} := by
  obtain ⟨s₁, h₁, h⟩ := Option.bind_eq_some_iff.mp h
  obtain ⟨s₂, h₂, h₃⟩ := Option.bind_eq_some_iff.mp h
  obtain ⟨hpush, hjoins₁⟩ := times_onto (motive := Joins link x.logic)
    (fun u v hu huv => ⟨(push_onto hbase hu huv).1, fun hv => absurd hv (push_onto hbase hu huv).2⟩)
    hjoins h₁
  rw [← (predicates_times_push h₁).2] at hno
  obtain ⟨hadd, hne₂⟩ := add_onto hbase hjoins₁ hno h₂
  obtain ⟨hpop, hne⟩ := times_onto (motive := fun u => u ≠ {})
    (fun _ _ _ huv => pop_onto huv) hne₂ h₃
  refine ⟨?_, hne⟩
  rw [step?, hpush, Option.bind_some, hadd]
  exact hpop

/-- A directive that can be read leaves the open lists as they are. -/
theorem eq_of_step_directive (hdirective : s.height + x.opens = 0 ∧ x.IsDirective)
    (h : step? x s = some t) : x.closes = 0 ∧ t = s := by
  have hopens : x.opens = 0 := Nat.eq_zero_of_add_eq_zero_left hdirective.1
  have hheight : s.height = 0 := Nat.eq_zero_of_add_eq_zero_right hdirective.1
  rw [step?, hopens, times?, Option.bind_some, add?, if_pos ⟨hheight, hdirective.2⟩,
    Option.bind_some] at h
  have hclose := (predicates_times_pop h).2
  have hcloses : x.closes = 0 := by omega
  rw [hcloses] at h
  exact ⟨hcloses, (Option.some.inj h).symm⟩

/-- Terms that are read from the start on build the same behind other terms, where their first
entry is joined as its symbol says. -/
theorem build_onto (hbase : base ≠ [])
    (hjoins : ∀ x ∈ (Lexeme.withoutDirectives s.height xs).head?, Joins link x.logic s)
    (h : build? xs s = some t) : build? xs (s.onto base link) = some (t.onto base link) := by
  induction xs generalizing s with
  | nil =>
    cases h
    rfl
  | cons x xs ih =>
    obtain ⟨u, hu, ht⟩ := Option.bind_eq_some_iff.mp h
    rw [Lexeme.withoutDirectives] at hjoins
    by_cases hdirective : s.height + x.opens = 0 ∧ x.IsDirective
    · -- nothing is read by it, so the first entry is still to come
      obtain ⟨hcloses, rfl⟩ := eq_of_step_directive hdirective hu
      rw [if_pos hdirective, Lexeme.depth_of_directive hdirective.1] at hjoins
      rw [build?, step_of_directive (by rwa [height_onto]) hcloses]
      exact ih hjoins ht
    · rw [if_neg hdirective] at hjoins
      obtain ⟨hstep, hne⟩ := step_onto hbase (hjoins x rfl) hdirective hu
      rw [build?, hstep]
      exact ih (fun _ _ hu => absurd hu hne) ht

end Stack
end UrlFilter
