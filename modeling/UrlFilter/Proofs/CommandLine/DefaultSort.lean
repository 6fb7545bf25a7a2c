import UrlFilter.CommandLine.Run
import UrlFilter.Proofs.Query.Join

/-! The default order of the command line. A list of sort keys that is given beside a query acts as
a `sort` directive behind the query would, and a query that has sort keys of its own leaves it
without effect: `default_sort_acts_as_directive`. -/
namespace UrlFilter

/-- Whether the text is read behind `sort=` as the list of a directive: all of it is the value, and
it does not make the `=` the beginning of a longer operator. -/
structure IsSortList (list : String) : Prop where
  ne : list ≠ ""
  chars : ∀ c ∈ list.toList, c ≠ '&' ∧ c ≠ '|' ∧ c ≠ ')'
  start : ∀ c ∈ list.toList.head?, c ≠ '~' ∧ c ≠ '<' ∧ c ≠ '>'

/-- The query text with a `sort` directive behind it. -/
def Query.withSort (s list : String) : String :=
  if s = "" then "sort=" ++ list else s ++ "&sort=" ++ list

namespace Lexeme

/-- The directive that asks for the order of a list. -/
def sorting (list : String) : Lexeme :=
  { logic := "", opens := 0, field := "sort", op := "=", value := list, closes := 0 }

/-- Every other spelling that begins with `=` goes on with `~`, `<` or `>`. -/
theorem isFirstSpelling_equal {c : Char} (hvalue : isValueChar c = true)
    (hc : c ≠ '~' ∧ c ≠ '<' ∧ c ≠ '>') (s : List Char) : IsFirstSpelling "=" ('=' :: c :: s) := by
  refine ⟨⟨c, s, rfl, hvalue⟩, Operator.spellings.dropLast, [], rfl, ?_⟩
  rintro other hother ⟨d, rest, heq, -⟩
  have hnone : ∀ o ∈ Operator.spellings.dropLast, ∀ d rest,
      '=' :: c :: s ≠ o.toList ++ d :: rest := by
    simp [Operator.spellings, hc]
  exact hnone other hother d rest heq

theorem isTerm_sorting {list : String} (h : IsSortList list) (rest : List Char) :
    (sorting list).IsTerm true rest := by
  have hvalue : ∀ c ∈ list.toList, isValueChar c = true := by
    intro c hc
    simp [isValueChar, h.chars c hc]
  refine ⟨.inr (.inr ⟨rfl, rfl⟩), by simp [sorting], by simp [sorting, isFieldChar], ?_, h.ne,
    hvalue⟩
  cases hchars : list.toList with
  | nil => exact absurd (String.toList_inj.mp hchars) h.ne
  | cons c cs =>
    have hafter : (sorting list).afterField rest = '=' :: c :: (cs ++ rest) := by
      simp [sorting, afterField, hchars]
    rw [hafter]
    exact isFirstSpelling_equal (hvalue c (by simp [hchars])) (h.start c (by simp [hchars])) _

/-- The directive alone says an order and nothing else. -/
theorem spell_sorting {list : String} (h : IsSortList list) (maxDepth : Nat) :
    Spell maxDepth [sorting list] { sort := SortKey.ofList list } := by
  have hcount : ¬ (sorting list).NeedsCount := by simp [NeedsCount, sorting]
  have hdirective : (sorting list).IsDirective := by simp [IsDirective, sorting]
  refine ⟨⟨isTerm_sorting h _, trivial⟩, ?_, ?_, ?_⟩
  · exact ⟨Nat.zero_le maxDepth, Nat.le_refl 0, fun _ hneeds => absurd hneeds hcount, rfl⟩
  · rw [Stack.build?, Stack.step_of_directive ⟨rfl, hdirective⟩ rfl]
    rfl
  · rw [directives, if_pos ⟨rfl, hdirective⟩]
    rfl

end Lexeme

namespace Query

/-- A `sort` directive behind a query adds its keys behind those of the query. -/
theorem parse_withSort {s list : String} {maxDepth : Nat} {q : Query} (h : IsSortList list)
    (hq : parse s maxDepth = .ok q) :
    parse (withSort s list) maxDepth = .ok { q with sort := q.sort ++ SortKey.ofList list } := by
  have hsorting := Lexeme.spell_sorting h maxDepth
  unfold withSort
  by_cases hs : s = ""
  · subst hs
    rw [parse_empty] at hq
    cases hq
    rw [if_pos rfl]
    exact parse_of_spell (by simp [Lexeme.textOf, Lexeme.text, Lexeme.sorting]) hsorting
  · obtain ⟨htext, hspell⟩ := spell_of_parse hq
    obtain ⟨link, -, hjoined⟩ := hspell.join hsorting (.inl rfl)
    have htext' : (s ++ "&sort=" ++ list).toList =
        Lexeme.textOf (terms s ++ Lexeme.resymbol "&" [Lexeme.sorting list]) := by
      rw [Lexeme.textOf_append, Lexeme.textOf_resymbol "&" (by simp [Lexeme.sorting]) (by simp),
        ← htext]
      simp [Lexeme.textOf, Lexeme.text, Lexeme.sorting]
    have hdirectives : (Lexeme.directives 0 [Lexeme.sorting list]).foldl Directives.apply
        q.toDirectives = { q.toDirectives with sort := q.sort ++ SortKey.ofList list } := rfl
    have hfilter :
        (if q.filter = [] then [] else q.filter ++ Filter.relink link []) = q.filter := by
      split
      · rename_i hnone
        exact hnone.symm
      · exact List.append_nil _
    rw [if_neg hs, parse_of_spell htext' hjoined, hdirectives, hfilter]

end Query

namespace Sql.Listing

/-- The listing with the order that counts as its query's own. -/
def settled (l : Sql.Listing) : Sql.Listing :=
  { l with query := { l.query with sort := l.sort }, defaultSort := [] }

theorem sort_settled (l : Sql.Listing) : l.settled.sort = l.sort := by
  show (if l.sort.isEmpty then [] else l.sort) = l.sort
  split
  · rename_i hempty
    exact (List.isEmpty_iff.mp hempty).symm
  · rfl

/-- Of the two orders of a listing its statements show the one that counts. -/
theorem statements_settled (schema : Schema) (l : Sql.Listing) :
    l.settled.statements schema = l.statements schema := by
  unfold statements
  rw [sort_settled]
  rfl

end Sql.Listing

namespace CommandLine

theorem queryOf_eq_ok {s : String} {maxDepth : Nat} {q : Query}
    (h : Query.parse s maxDepth = .ok q) : queryOf s false maxDepth = .ok q := by
  simp [queryOf, h]

/-- Two runs that come to listings with the same order that counts have one result. -/
theorem compileJson_congr {s s' table : String} {raw raw' : Bool} {maxDepth : Nat}
    {schema : Schema} {list list' : Option String} {q q' : Query}
    (hq : queryOf s raw maxDepth = .ok q) (hq' : queryOf s' raw' maxDepth = .ok q')
    (h : Sql.Listing.settled { table, query := q, defaultSort := SortKey.ofList (list.getD "") } =
      Sql.Listing.settled
        { table, query := q', defaultSort := SortKey.ofList (list'.getD "") }) :
    compileJson s raw maxDepth schema (some table) list =
      compileJson s' raw' maxDepth schema (some table) list' := by
  simp only [compileJson, hq, hq']
  rw [← Sql.Listing.statements_settled, h, Sql.Listing.statements_settled]

/-- A default order acts as the `sort` directive with the same list would, as long as the query
has no sort keys. As soon as it has one, sortable or not, the default has no effect. -/
theorem default_sort_acts_as_directive (schema : Schema) (table s : String) (maxDepth : Nat) :
    (∀ list q, IsSortList list → Query.parse s maxDepth = .ok q → q.sort = [] →
      compileJson s false maxDepth schema (some table) (some list) =
        compileJson (if s = "" then "sort=" ++ list else s ++ "&sort=" ++ list) false maxDepth
          schema (some table) none) ∧
    ∀ raw q, queryOf s raw maxDepth = .ok q → q.sort ≠ [] → ∀ list : Option String,
      compileJson s raw maxDepth schema (some table) list =
        compileJson s raw maxDepth schema (some table) none := by
  refine ⟨fun list q hlist hq hnone => ?_, fun raw q hq hsome list => ?_⟩
  · have hdirective := Query.parse_withSort hlist hq
    refine compileJson_congr (queryOf_eq_ok hq) (queryOf_eq_ok hdirective) ?_
    -- a list without entries asks for no order, wherever it stands
    have horder : Sql.Listing.sort {
          table
          query := { q with sort := q.sort ++ SortKey.ofList list }
          defaultSort := SortKey.ofList "" } =
        Sql.Listing.sort { table, query := q, defaultSort := SortKey.ofList list } := by
      rw [Sql.Listing.sort, Sql.Listing.sort, hnone, List.nil_append]
      cases SortKey.ofList list with
      | nil => rfl
      | cons k keys => rfl
    simp only [Sql.Listing.settled, Option.getD_some, Option.getD_none, horder]
  · refine compileJson_congr hq hq ?_
    simp [Sql.Listing.settled, Sql.Listing.sort, hsome]

/-- Entries of the list may be empty, descending or not sortable, and a query may ask for nothing
that is sortable. -/
theorem default_sort_acts_as_directive_mixed :
    ∃ q q', IsSortList ",-a,b" ∧ Query.parse "(a=1)" 1 = .ok q ∧ q.sort = [] ∧
      queryOf "sort=b" false 1 = .ok q' ∧ q'.sort ≠ [] ∧
      Sql.Listing.statements ⟨.ofList [("a", .numeric)], ⟨["t.a"]⟩⟩ {
          table := "t"
          query := q
          defaultSort := SortKey.ofList ",-a,b" } =
        .ok ⟨"SELECT * FROM t WHERE 1=1 AND ((a = $1)) ORDER BY t.a DESC",
          "SELECT COUNT(*) AS count FROM t WHERE 1=1 AND ((a = $1))", [.text "1"]⟩ ∧
      compileJson "(a=1)" false 1 ⟨.ofList [("a", .numeric)], ⟨["t.a"]⟩⟩ (some "t")
          (some ",-a,b") =
        compileJson "(a=1)&sort=,-a,b" false 1 ⟨.ofList [("a", .numeric)], ⟨["t.a"]⟩⟩ (some "t")
          none ∧
      compileJson "sort=b" false 1 ⟨.ofList [("a", .numeric)], ⟨["t.a"]⟩⟩ (some "t") (some "a") =
        compileJson "sort=b" false 1 ⟨.ofList [("a", .numeric)], ⟨["t.a"]⟩⟩ (some "t") none := by
  have hlist : IsSortList ",-a,b" := ⟨by decide, by simp, by simp⟩
  have hq : Query.parse "(a=1)" 1 =
      .ok { filter := [.group .start [.predicate .start ⟨.equal, "a", "1"⟩]] } :=
    eq_ok_of_toOption (by decide +kernel)
  have hq' : Query.parse "sort=b" 1 = .ok { sort := [⟨"b", false⟩] } :=
    eq_ok_of_toOption (by decide +kernel)
  obtain ⟨hsame, -⟩ := default_sort_acts_as_directive ⟨.ofList [("a", .numeric)], ⟨["t.a"]⟩⟩ "t"
    "(a=1)" 1
  obtain ⟨-, hnone⟩ := default_sort_acts_as_directive ⟨.ofList [("a", .numeric)], ⟨["t.a"]⟩⟩ "t"
    "sort=b" 1
  have hdirective := hsame ",-a,b" _ hlist hq rfl
  rw [if_neg (by decide)] at hdirective
  exact ⟨_, _, hlist, hq, rfl, queryOf_eq_ok hq', by simp,
    eq_ok_of_toOption (by decide +kernel), hdirective,
    hnone false _ (queryOf_eq_ok hq') (by simp) (some "a")⟩

end CommandLine
end UrlFilter
