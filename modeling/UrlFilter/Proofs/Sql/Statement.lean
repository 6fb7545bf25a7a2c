import UrlFilter.Proofs.Sql.Where
import UrlFilter.Sql.Statement

/-! What the statements of a listing are. Both filters are lowered one after the other into one
draft, so that a listing has statements exactly if all predicates of both fit the schema; their text
is a function of the two trees, and their parameters are those of the imposed filter and then those
of the query. -/
namespace UrlFilter.Sql

open Draft (AllBind addFilter_succeeds_iff allBind_append)

/-- A filter as one more conjunct behind `n` parameters. -/
def conjunctText (fields : FilterFields) (n : Nat) (f : Filter) : String :=
  if f.isEmpty then "" else " AND (" ++ termsText fields true n f ++ ")"

namespace Listing

/-- The predicates of both filters, those of the imposed one first. -/
def predicates (l : Listing) : List Predicate :=
  l.imposed.predicates ++ l.query.filter.predicates

/-- The condition of both statements. -/
def conditionText (fields : FilterFields) (l : Listing) : String :=
  "WHERE 1=1" ++ conjunctText fields 0 l.imposed ++
    conjunctText fields l.imposed.predicateCount l.query.filter

variable {fields : FilterFields} {schema : Schema} {d d' : Draft} {f : Filter} {l : Listing}

theorem addConjunct_eq_ok (h : addConjunct fields d f = ⟨d', none⟩) :
    ∃ bs, AreBound fields f.predicates bs ∧
      d' = d.extend (conjunctText fields d.params.length f) (bs.map Binding.param) := by
  unfold addConjunct at h
  split at h
  · rename_i hempty
    cases h
    rw [conjunctText, if_pos hempty, List.isEmpty_iff.mp hempty]
    exact ⟨[], .nil, by simp [Draft.extend]⟩
  · rename_i hne
    split at h
    · rename_i inner hinner
      cases h
      obtain ⟨bs, hbs, rfl⟩ := Draft.addTerms_eq_ok hinner
      refine ⟨bs, hbs, ?_⟩
      rw [conjunctText, if_neg hne]
      simp [Draft.extend, Draft.write, String.append_assoc]
    · rename_i hfailed
      exact absurd h (hfailed d')

theorem addConjunct_succeeds_iff :
    (∃ d', addConjunct fields d f = ⟨d', none⟩) ↔ AllBind fields f.predicates := by
  constructor
  · rintro ⟨d', h⟩
    obtain ⟨bs, hbs, -⟩ := addConjunct_eq_ok h
    exact Draft.allBind_of_areBound hbs
  · intro h
    obtain ⟨inner, hinner⟩ := addFilter_succeeds_iff (d := d.write " AND (").mpr h
    unfold addConjunct
    split
    · exact ⟨d, rfl⟩
    · exact ⟨inner.write ")", by rw [hinner]⟩

theorem condition_eq_ok (h : l.condition fields = ⟨d, none⟩) :
    ∃ bs, AreBound fields l.predicates bs ∧
      d = ⟨l.conditionText fields, bs.map Binding.param⟩ := by
  unfold condition at h
  split at h
  · rename_i inner hinner
    obtain ⟨bs, hbs, rfl⟩ := addConjunct_eq_ok hinner
    obtain ⟨cs, hcs, rfl⟩ := addConjunct_eq_ok h
    -- the query's predicates are numbered on from the parameters of the imposed filter
    have hcount : bs.length = l.imposed.predicateCount := hbs.length_eq.symm
    refine ⟨bs ++ cs, List.rel_append hbs hcs, ?_⟩
    simp [Draft.extend, conditionText, hcount]
  · rename_i hfailed
    exact absurd h (hfailed d)

theorem condition_succeeds_iff :
    (∃ d, l.condition fields = ⟨d, none⟩) ↔ AllBind fields l.predicates := by
  constructor
  · rintro ⟨d, h⟩
    obtain ⟨bs, hbs, -⟩ := condition_eq_ok h
    exact Draft.allBind_of_areBound hbs
  · intro h
    obtain ⟨himposed, hquery⟩ := allBind_append.mp h
    obtain ⟨inner, hinner⟩ :=
      addConjunct_succeeds_iff (d := { clause := "WHERE 1=1" }).mpr himposed
    obtain ⟨d, hd⟩ := addConjunct_succeeds_iff (d := inner).mpr hquery
    refine ⟨d, ?_⟩
    rw [condition, hinner]
    exact hd

/-- The statements of a listing by their parts. -/
theorem statements_eq_ok {st : Statements} (h : l.statements schema = .ok st) :
    ∃ bs, AreBound schema.filterFields l.predicates bs ∧ st = {
      select := addOrder schema.sortFields ("SELECT " ++ l.columns ++ " FROM " ++ l.table ++ " " ++
          l.conditionText schema.filterFields) l.sort ++
        page "LIMIT" l.query.limit ++ page "OFFSET" l.query.offset
      count := "SELECT COUNT(*) AS count FROM " ++ l.table ++ " " ++
        l.conditionText schema.filterFields
      params := bs.map Binding.param } := by
  unfold statements at h
  split at h
  · simp at h
  · rename_i d hd
    obtain ⟨bs, hbs, rfl⟩ := condition_eq_ok hd
    cases h
    exact ⟨bs, hbs, rfl⟩

theorem statements_succeed_iff :
    (∃ st, l.statements schema = .ok st) ↔ AllBind schema.filterFields l.predicates := by
  rw [← condition_succeeds_iff]
  unfold statements
  constructor
  · rintro ⟨st, h⟩
    split at h
    · simp at h
    · rename_i d hd
      exact ⟨d, hd⟩
  · rintro ⟨d, hd⟩
    rw [hd]
    exact ⟨_, rfl⟩

end Listing
end UrlFilter.Sql
