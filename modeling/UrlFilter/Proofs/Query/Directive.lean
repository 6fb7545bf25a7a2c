import UrlFilter.Proofs.Query.Tree

/-! What the directives of a text come to. They are taken one after another, and nothing else that
stands in the text reaches them: `directives_of_parse`. Lists of entries add up, and of several
counts the last one stays: `Directives.foldl_apply`. -/
namespace UrlFilter

/-- The directives among terms. Before the first term `depth` groups are open. -/
def Lexeme.directives : Nat → List Lexeme → List Lexeme
  | _, [] => []
  | depth, x :: xs =>
    if depth + x.opens = 0 ∧ x.IsDirective then
      x :: directives (depth + x.opens - x.closes) xs
    else directives (depth + x.opens - x.closes) xs

/-- The directives after a term. A term that is none changes nothing. -/
def Directives.apply (d : Directives) (x : Lexeme) : Directives :=
  match d.update? x with
  | .ok (some d) => d
  | _ => d

/-- The entries of the list of a term that has the name. -/
def Lexeme.entries (name : String) (x : Lexeme) : List String :=
  if x.field = name then listEntries x.value else []

/-- The count of a term that has the name. -/
def Lexeme.count? (name : String) (x : Lexeme) : Option UInt64 :=
  if x.field = name then Text.count? x.value else none

/-- The last count among terms that have the name. -/
def Lexeme.lastCount? (name : String) (ds : List Lexeme) : Option UInt64 :=
  (ds.filterMap (Lexeme.count? name)).getLast?

namespace Directives

theorem apply_eq (d : Directives) (x : Lexeme) :
    d.apply x = {
      sort := d.sort ++ (x.entries "sort").map SortKey.ofEntry
      options := d.options.insertAll (x.entries "option")
      limit := (x.count? "limit").getD d.limit
      offset := (x.count? "offset").getD d.offset } := by
  unfold apply update? Lexeme.entries Lexeme.count?
  by_cases hl : x.field = "limit"
  · cases Text.count? x.value with
    | none => simp [hl, OptionSet.insertAll]
    | some n => simp [hl, OptionSet.insertAll]
  · by_cases ho : x.field = "offset"
    · cases Text.count? x.value with
      | none => simp [ho, OptionSet.insertAll]
      | some n => simp [ho, OptionSet.insertAll]
    · by_cases hs : x.field = "sort"
      · simp [hs, OptionSet.insertAll, SortKey.ofList]
      · by_cases hp : x.field = "option"
        · simp [hp]
        · simp [hl, ho, hs, hp, OptionSet.insertAll]

/-- What terms come to that are taken one after another. -/
theorem foldl_apply (d : Directives) (ds : List Lexeme) :
    ds.foldl apply d = {
      sort := d.sort ++ (ds.flatMap (Lexeme.entries "sort")).map SortKey.ofEntry
      options := d.options.insertAll (ds.flatMap (Lexeme.entries "option"))
      limit := (Lexeme.lastCount? "limit" ds).getD d.limit
      offset := (Lexeme.lastCount? "offset" ds).getD d.offset } := by
  induction ds generalizing d with
  | nil => simp [Lexeme.lastCount?, OptionSet.insertAll]
  | cons x ds ih =>
    have hlast (name : String) (n : UInt64) :
        (Lexeme.lastCount? name (x :: ds)).getD n =
          (Lexeme.lastCount? name ds).getD ((x.count? name).getD n) := by
      unfold Lexeme.lastCount?
      rw [List.filterMap_cons]
      cases x.count? name with
      | none => rfl
      | some m =>
        rw [List.getLast?_cons]
        rfl
    rw [List.foldl_cons, ih, apply_eq, hlast, hlast]
    simp [OptionSet.insertAll]

end Directives

namespace Stack

variable {maxDepth length : Nat} {s t : Stack} {p q : Progress} {token : Token}
  {rest : List Token}

theorem directives_of_addTerm (h : s.addTerm p token = .ok (t, q)) :
    q.directives = if s.height = 0 ∧ token.IsDirective then p.directives.apply token.toLexeme
      else p.directives := by
  obtain ⟨link, op, terms, -, -, hr, -⟩ := addTerm_eq_ok h
  rcases readTerm_eq_ok hr with ⟨h0, d, hd, -, rfl⟩ | ⟨hd, rfl, -⟩
  · rw [if_pos ⟨h0, isDirective_of_update? hd⟩, Directives.apply, hd]
  · rw [if_neg]
    rintro ⟨h0, hdirective⟩
    exact not_isDirective_of_update? (hd h0) hdirective

/-- A token may be one directive, and moves the number of open groups by its parentheses. -/
theorem directives_of_read (h : s.read maxDepth token rest p = .ok (t, q)) :
    t.height = s.height + token.opens - token.closes ∧
      q.directives =
        if s.height + token.opens = 0 ∧ token.IsDirective then
          p.directives.apply token.toLexeme
        else p.directives := by
  obtain ⟨s₁, s₂, q₁, h₁, h₂, h₃, rfl⟩ := read_eq_ok h
  have hopen := (predicates_times_push (push_of_openGroups h₁)).2
  have hadd := (predicates_add (add_of_addTerm h₂)).1
  have hclose := (predicates_times_pop (pop_of_closeGroups h₃)).2
  have hdirectives := directives_of_addTerm h₂
  obtain ⟨d, rfl⟩ := progress_of_addTerm h₂
  have hcloses : t.height + token.closes = s₂.height := hclose
  refine ⟨by omega, ?_⟩
  rw [← hopen]
  exact hdirectives

/-- A reading takes the directives among its tokens, in their order. -/
theorem directives_of_run {tokens : List Token} {r : Reading}
    (h : s.run maxDepth length tokens p = .ok r) :
    r.2.directives = (Lexeme.directives s.height (tokens.map Token.toLexeme)).foldl
      Directives.apply p.directives := by
  induction tokens generalizing s p with
  | nil =>
    rw [run] at h
    split at h
    · cases h
      rfl
    · simp at h
  | cons token rest ih =>
    rw [run] at h
    split at h
    · simp at h
    · rename_i t q hr
      obtain ⟨hheight, hdirectives⟩ := directives_of_read hr
      rw [ih h, hheight, hdirectives, List.map_cons, Lexeme.directives]
      by_cases hd : s.height + token.opens = 0 ∧ token.IsDirective
      · rw [if_pos hd, if_pos hd, List.foldl_cons]
      · rw [if_neg hd, if_neg hd]

end Stack

namespace Query

/-- Of a text only the directives outside all groups count for order, options and page. -/
theorem directives_of_parse {s : String} {maxDepth : Nat} {q : Query}
    (h : parse s maxDepth = .ok q) :
    q.toDirectives = (Lexeme.directives 0 ((Token.scan s).map Token.toLexeme)).foldl
      Directives.apply {} := by
  obtain ⟨-, -, p, hrun, hq⟩ := parse_eq_ok_iff.mp h
  rw [hq]
  exact Stack.directives_of_run hrun

end Query
end UrlFilter
