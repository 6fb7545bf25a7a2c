import UrlFilter.Proofs.Filter.Canonical
import UrlFilter.Proofs.Query.Grammar
import UrlFilter.Proofs.Query.Tree

/-! The shape of the filters that texts have. A group is closed behind a term that stands in it, so
that no group of a text is empty. Dropping a level of parentheses around one group once, where it is
closed, is enough: the group inside was closed before and has lost its own. The main statement,
`filter_isCanonical`, is carried by what holds of the open lists of a stack. -/
namespace UrlFilter

/-- Whether a term that is so joined may follow the terms `before`. -/
def Filter.Joins (before : Filter) (link : Connective) : Prop :=
  (before = [] ∧ link = .start) ∨ (before ≠ [] ∧ (link = .and ∨ link = .or))

theorem Filter.joins_of_joining? {before : Filter} {symbol : String} {link : Connective}
    (h : Stack.joining? before symbol = some link) : before.Joins link := by
  unfold Stack.joining? at h
  by_cases hb : before = []
  · rw [if_pos hb] at h
    exact .inl ⟨hb, (Option.some.inj h).symm⟩
  · rw [if_neg hb] at h
    refine .inr ⟨hb, ?_⟩
    cases link with
    | start =>
      have hs := Connective.ofSymbol?_eq_some_iff.mp h
      simp [Connective.symbol?] at hs
    | and => exact .inl rfl
    | or => exact .inr rfl

theorem Filter.isLinked_append {f : Filter} {t : Term} (hf : f.IsLinked) (ht : f.Joins t.link) :
    IsLinked (f ++ [t]) := by
  cases f with
  | nil =>
    rcases ht with ⟨-, ht⟩ | ⟨hne, -⟩
    · exact ⟨ht, by simp⟩
    · exact absurd rfl hne
  | cons u us =>
    rcases ht with ⟨hnil, -⟩ | ⟨-, ht⟩
    · simp at hnil
    · refine ⟨hf.1, ?_⟩
      intro v hv
      rcases List.mem_append.mp hv with hv | hv
      · exact hf.2 v hv
      · obtain rfl := List.mem_singleton.mp hv
        exact ht

namespace Term

variable {maxDepth depth : Nat} {t : Term}

/-- A term inside parentheses is as good inside fewer, as long as there are some. -/
theorem IsCanonical.of_le (h : t.IsCanonical maxDepth depth) {d : Nat} (hpos : 0 < d)
    (hle : d ≤ depth) : t.IsCanonical maxDepth d := by
  induction h generalizing d with
  | predicate writable _ => exact .predicate writable fun h0 => by omega
  | group depth_lt ne_nil not_lone linked _ ih =>
    exact .group (by omega) ne_nil not_lone linked
      fun u hu => ih u hu (Nat.succ_pos d) (Nat.succ_le_succ hle)

/-- A list that is closed becomes one canonical group. -/
theorem isCanonical_group_collapse {terms : Filter} (link : Connective) (hdepth : depth < maxDepth)
    (hne : terms ≠ []) (hlinked : terms.IsLinked)
    (hterms : ∀ t ∈ terms, t.IsCanonical maxDepth (depth + 1)) :
    (group link terms.collapse).IsCanonical maxDepth depth := by
  unfold Filter.collapse
  split
  · -- the one group inside holds no lone group itself
    rename_i inner ts
    cases hterms _ (List.mem_singleton_self _) with
    | group _ ne_nil not_lone linked canonical =>
      exact .group hdepth ne_nil not_lone linked
        fun u hu => (canonical u hu).of_le (Nat.succ_pos depth) (Nat.le_succ _)
  · rename_i hlone
    exact .group hdepth hne hlone hlinked hterms

end Term

namespace Stack

/-- Whether the lists around the innermost one could belong to a canonical filter, each with the
joining of the group that is open in it. -/
def AreSound (maxDepth : Nat) : List (Filter × Connective) → Prop
  | [] => True
  | (before, link) :: below =>
    before.IsLinked ∧ (∀ t ∈ before, t.IsCanonical maxDepth below.length) ∧ before.Joins link ∧
      AreSound maxDepth below

/-- Whether all open lists could belong to a canonical filter. -/
structure IsSound (maxDepth : Nat) (s : Stack) : Prop where
  height_le : s.height ≤ maxDepth
  linked : s.top.IsLinked
  terms : ∀ t ∈ s.top, t.IsCanonical maxDepth s.height
  below : AreSound maxDepth s.below

variable {maxDepth : Nat} {s t : Stack}

theorem isSound_push {symbol : String} (h : push? symbol s = some t) (hs : s.IsSound maxDepth)
    (hlt : s.height < maxDepth) : t.IsSound maxDepth := by
  unfold push? at h
  obtain ⟨link, hlink, rfl⟩ := Option.map_eq_some_iff.mp h
  exact ⟨hlt, trivial, by simp, hs.linked, hs.terms, Filter.joins_of_joining? hlink, hs.below⟩

theorem isSound_times_push {symbol : String} {count : Nat}
    (h : times? (push? symbol) count s = some t) (hs : s.IsSound maxDepth)
    (hle : s.height + count ≤ maxDepth) : t.IsSound maxDepth := by
  refine (times_induction (motive := fun n u => u.IsSound maxDepth ∧ u.height + n ≤ maxDepth)
    ?_ h ⟨hs, hle⟩).1
  intro n u v huv hu
  have hheight := (predicates_push huv).2
  exact ⟨isSound_push huv hu.1 (by omega), by omega⟩

/-- What is added inside a group makes the group's list nonempty. -/
theorem isSound_add {x : Lexeme} {first : Bool} {rest : List Char} (hx : x.IsTerm first rest)
    (h : add? x s = some t) (hs : s.IsSound maxDepth) :
    t.IsSound maxDepth ∧ (0 < t.height → t.top ≠ []) := by
  unfold add? at h
  by_cases hd : s.height = 0 ∧ x.IsDirective
  · rw [if_pos hd] at h
    cases h
    exact ⟨hs, fun h0 => by omega⟩
  · rw [if_neg hd] at h
    obtain ⟨link, hlink, h⟩ := Option.bind_eq_some_iff.mp h
    obtain ⟨test, htest, rfl⟩ := Option.map_eq_some_iff.mp h
    obtain ⟨op, hop, rfl⟩ := Option.map_eq_some_iff.mp htest
    refine ⟨⟨hs.height_le, ?_, ?_, hs.below⟩, fun _ => by simp⟩
    · exact Filter.isLinked_append hs.linked (Filter.joins_of_joining? hlink)
    · intro u hu
      rcases List.mem_append.mp hu with hu | hu
      · exact hs.terms u hu
      · obtain rfl := List.mem_singleton.mp hu
        exact .predicate (hx.isWritable hop) fun h0 hdirective => hd ⟨h0, hdirective⟩

theorem isSound_pop (h : pop? s = some t) (hs : s.IsSound maxDepth) (hne : s.top ≠ []) :
    t.IsSound maxDepth ∧ t.top ≠ [] := by
  obtain ⟨terms, below⟩ := s
  cases below with
  | nil => simp [pop?] at h
  | cons frame below =>
    cases h
    obtain ⟨hlinked, hterms, hjoins, hbelow⟩ := hs.below
    have hlt : below.length < maxDepth := hs.height_le
    refine ⟨⟨Nat.le_of_lt hlt, ?_, ?_, hbelow⟩, by simp⟩
    · exact Filter.isLinked_append hlinked hjoins
    · intro u hu
      rcases List.mem_append.mp hu with hu | hu
      · exact hterms u hu
      · obtain rfl := List.mem_singleton.mp hu
        exact Term.isCanonical_group_collapse _ hlt hne hs.linked hs.terms

theorem isSound_times_pop {count : Nat} (h : times? pop? count s = some t)
    (hs : s.IsSound maxDepth) (hne : 0 < s.height → s.top ≠ []) : t.IsSound maxDepth := by
  -- the group that is closed makes the list around it nonempty, so that this can be closed, too
  refine (times_induction
    (motive := fun _ u => u.IsSound maxDepth ∧ (0 < u.height → u.top ≠ [])) ?_ h ⟨hs, hne⟩).1
  intro n u v huv hu
  have hheight := (predicates_pop huv).2
  obtain ⟨hsound, htop⟩ := isSound_pop huv hu.1 (hu.2 (by omega))
  exact ⟨hsound, fun _ => htop⟩

theorem isSound_step {x : Lexeme} {first : Bool} {rest : List Char} (hx : x.IsTerm first rest)
    (h : step? x s = some t) (hs : s.IsSound maxDepth) (hle : s.height + x.opens ≤ maxDepth) :
    t.IsSound maxDepth ∧ t.height = s.height + x.opens - x.closes := by
  obtain ⟨s₁, h₁, h⟩ := Option.bind_eq_some_iff.mp h
  obtain ⟨s₂, h₂, h₃⟩ := Option.bind_eq_some_iff.mp h
  obtain ⟨hs₂, hne⟩ := isSound_add hx h₂ (isSound_times_push h₁ hs hle)
  have hopen := (predicates_times_push h₁).2
  have hadd := (predicates_add h₂).1
  have hclose := (predicates_times_pop h₃).2
  exact ⟨isSound_times_pop h₃ hs₂ hne, by omega⟩

/-- Well-nested terms leave lists that a canonical filter could have. -/
theorem isSound_build {xs : List Lexeme} {first : Bool} (hterms : Lexeme.AreTerms first xs)
    (hnested : WellNested maxDepth s.height xs) (h : build? xs s = some t)
    (hs : s.IsSound maxDepth) : t.IsSound maxDepth := by
  induction xs generalizing first s with
  | nil =>
    cases h
    exact hs
  | cons x xs ih =>
    obtain ⟨hdepth, -, -, hnested⟩ := hnested
    obtain ⟨u, hu, ht⟩ := Option.bind_eq_some_iff.mp h
    obtain ⟨hsound, hheight⟩ := isSound_step hterms.1 hu hs hdepth
    exact ih hterms.2 (hheight ▸ hnested) ht hsound

end Stack

namespace Query

variable {s : String} {maxDepth : Nat} {q : Query}

/-- The filter of a text is canonical. -/
theorem filter_isCanonical (h : parse s maxDepth = .ok q) : q.filter.IsCanonical maxDepth := by
  obtain ⟨-, hterms, hnested⟩ := textOf_scan_of_parse h
  have hsound := Stack.isSound_build (s := {}) hterms hnested (build_of_parse h)
    ⟨Nat.zero_le _, trivial, by simp, trivial⟩
  exact ⟨hsound.linked, hsound.terms⟩

/-- No group of a text is empty. -/
theorem hasEmptyGroup_of_parse (h : parse s maxDepth = .ok q) : q.filter.hasEmptyGroup = false :=
  (filter_isCanonical h).hasEmptyGroup_eq_false

end Query
end UrlFilter
