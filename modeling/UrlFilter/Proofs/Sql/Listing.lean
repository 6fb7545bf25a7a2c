import UrlFilter.Proofs.Sql.Meaning
import UrlFilter.Proofs.Sql.OrderBy

/-! What the statements of a listing ask for. Their condition is a conjunction of `1=1` and the two
filters, each in parentheses of its own, so that nothing in the query's filter reaches the one
that the server imposes. -/
namespace UrlFilter.Sql

variable {fields : FilterFields}

/-- A filter that is added to a conjunction becomes one more operand of it. -/
theorem reads_addConjunct (hplain : HasPlainNames fields) {d d' : Draft} {f : Filter}
    (hfull : f.hasEmptyGroup = false) (h : Listing.addConjunct fields d f = ⟨d', none⟩)
    {s : List Char} {a : Condition} (hs : Reads true .conjunction s a) :
    ∃ text params e, d' = d.extend text params ∧ params.length = f.predicateCount ∧
      Reads true .conjunction (s ++ text.toList) e ∧
      ∀ predicates : Nat → Bool, e.holds (fun c => predicates c.place) =
        (a.holds (fun c => predicates c.place) && f.value predicates d.params.length) := by
  unfold Listing.addConjunct at h
  split at h
  · rename_i hempty
    cases h
    refine ⟨"", [], a, by simp [Draft.extend], ?_, by simpa using hs, ?_⟩
    · rw [List.isEmpty_iff.mp hempty]
      rfl
    · intro predicates
      rw [Filter.value, hempty, Bool.true_or, Bool.and_true]
  · rename_i hne
    split at h
    · rename_i inner hinner
      cases h
      obtain ⟨text, params, rfl, hlength, -, hreads⟩ :=
        reads_addFilter hplain (by simpa using hne) hinner
      obtain ⟨b, hb, hvalue⟩ := hreads hfull
      -- in parentheses the whole filter is one operand, even where OR joins its terms
      obtain ⟨e, he, hboth⟩ := hs.append_factor (.parens hb)
      refine ⟨" AND (" ++ text ++ ")", params, e, ?_, hlength, ?_, ?_⟩
      · simp [Draft.extend, Draft.write, String.append_assoc]
      · simpa using he
      · intro predicates
        rw [hboth, hvalue _ predicates (agrees_place _ _ _ _)]
        rfl
    · rename_i hne
      exact absurd h (hne d')

/-- The condition of a listing holds where both filters do. -/
theorem reads_condition (hplain : HasPlainNames fields) {l : Listing} {d : Draft}
    (himposed : l.imposed.hasEmptyGroup = false)
    (hquery : l.query.filter.hasEmptyGroup = false)
    (h : l.condition fields = ⟨d, none⟩) :
    ∃ text e, d.clause = "WHERE " ++ text ∧ Reads true .conjunction text.toList e ∧
      ∀ predicates : Nat → Bool, e.holds (fun c => predicates c.place) =
        (l.imposed.value predicates 0 &&
          l.query.filter.value predicates l.imposed.predicateCount) := by
  unfold Listing.condition at h
  split at h
  · rename_i inner hinner
    -- the imposed filter is added first, so the query's predicates are numbered behind its own
    obtain ⟨s, params, a, rfl, hlength, ha, hvalue⟩ :=
      reads_addConjunct hplain himposed hinner (.factor (.truth rfl))
    obtain ⟨t, params', e, rfl, -, he, hvalue'⟩ := reads_addConjunct hplain hquery h ha
    refine ⟨"1=1" ++ s ++ t, e, ?_, by simpa using he, ?_⟩
    · simp [Draft.extend, ← String.append_assoc]
    · intro predicates
      rw [hvalue', hvalue]
      simp [Condition.holds, Draft.extend, hlength]
  · rename_i hne
    exact absurd h (hne d)

/-- No condition ends in a blank. -/
theorem Reads.exists_last {withTruth : Bool} {rank : Rank} {s : List Char} {e : Condition}
    (h : Reads withTruth rank s e) : ∃ before c, s = before ++ [c] ∧ c ≠ ' ' := by
  induction h with
  | truth _ => exact ⟨"1=".toList, '1', by decide, by decide⟩
  | @test column digits op _ hne hdigits =>
    have hlast := hdigits _ (List.getLast_mem hne)
    refine ⟨column.toList ++ (' ' :: (op.sql.toList ++ (' ' :: '$' :: digits.dropLast))),
      digits.getLast hne, ?_, ?_⟩
    · simp [List.dropLast_append_getLast hne]
    · intro hblank
      rw [hblank] at hlast
      simp [Text.isDigit] at hlast
  | @parens s _ _ _ => exact ⟨'(' :: s, ')', rfl, by decide⟩
  | factor _ ih => exact ih
  | @both s _ _ _ _ _ _ ih =>
    obtain ⟨before, c, rfl, hc⟩ := ih
    exact ⟨s ++ (" AND ".toList ++ before), c, by simp, hc⟩
  | conjunction _ ih => exact ih
  | @either s _ _ _ _ _ _ ih =>
    obtain ⟨before, c, rfl, hc⟩ := ih
    exact ⟨s ++ (" OR ".toList ++ before), c, by simp, hc⟩

/-- Both statements of a listing ask for the same condition. It can be read in one way, and holds
exactly where the imposed filter and the query's filter do. -/
theorem statements_within_imposed (schema : Schema) (l : Listing) (st : Statements)
    (hplain : HasPlainNames schema.filterFields)
    (himposed : l.imposed.hasEmptyGroup = false)
    (hquery : l.query.filter.hasEmptyGroup = false)
    (h : l.statements schema = .ok st) :
    ∃ (condition order : String) (e : Condition),
      st.count = "SELECT COUNT(*) AS count FROM " ++ l.table ++ " WHERE " ++ condition ∧
      st.select = "SELECT " ++ l.columns ++ " FROM " ++ l.table ++ " WHERE " ++ condition ++
        order ++ Listing.page "LIMIT" l.query.limit ++ Listing.page "OFFSET" l.query.offset ∧
      (order = "" ∨ ∃ keys, order = " ORDER BY " ++ keys) ∧
      Reads true .disjunction condition.toList e ∧
      (∀ e', Reads true .disjunction condition.toList e' → e' = e) ∧
      ∀ predicates : Nat → Bool, e.holds (fun c => predicates c.place) =
        (l.imposed.value predicates 0 &&
          l.query.filter.value predicates l.imposed.predicateCount) := by
  unfold Listing.statements at h
  split at h
  · simp at h
  · rename_i d hd
    cases h
    obtain ⟨condition, e, hclause, he, hvalue⟩ := reads_condition hplain himposed hquery hd
    obtain ⟨before, c, hlast, hc⟩ := he.exists_last
    have hwhere (text : String) : text ++ " " ++ d.clause = text ++ " WHERE " ++ condition := by
      rw [hclause, show " WHERE " = " " ++ "WHERE " from rfl]
      simp only [String.append_assoc]
    have hend : ("SELECT " ++ l.columns ++ " FROM " ++ l.table ++ " WHERE " ++
        condition).toList = (("SELECT " ++ l.columns ++ " FROM " ++ l.table ++
          " WHERE ").toList ++ before) ++ [c] := by
      rw [String.toList_append, hlast, List.append_assoc]
    obtain ⟨order, horder, hkeys⟩ := exists_order schema.sortFields l.sort hend hc
    refine ⟨condition, order, e, hwhere _, ?_, hkeys, .conjunction he, ?_, hvalue⟩
    · rw [hwhere, horder]
    · intro e' he'
      exact he'.unique (.conjunction he)

/-- An OR in the query's filter stays behind the AND of the imposed one. -/
theorem statements_within_imposed_or :
    ∃ st, Listing.statements ⟨.ofList [("a", .numeric), ("b", .string)], {}⟩ {
          table := "t"
          imposed := [.predicate .start ⟨.equal, "a", "1"⟩]
          query := {
            filter := [.predicate .start ⟨.equal, "b", "2"⟩, .predicate .or ⟨.equal, "a", "3"⟩] } }
        = .ok st ∧
      st.count = "SELECT COUNT(*) AS count FROM t WHERE 1=1 AND (a = $1) AND (b = $2 OR a = $3)" ∧
      ∃ condition e, st.count = "SELECT COUNT(*) AS count FROM t WHERE " ++ condition ∧
        Reads true .disjunction condition.toList e ∧
        ∀ predicates : Nat → Bool, e.holds (fun c => predicates c.place) =
          (predicates 1 && (predicates 2 || predicates 3)) := by
  have h : Listing.statements ⟨.ofList [("a", .numeric), ("b", .string)], {}⟩ {
          table := "t"
          imposed := [.predicate .start ⟨.equal, "a", "1"⟩]
          query := {
            filter := [.predicate .start ⟨.equal, "b", "2"⟩, .predicate .or ⟨.equal, "a", "3"⟩] } }
      = .ok {
          select := "SELECT * FROM t WHERE 1=1 AND (a = $1) AND (b = $2 OR a = $3)"
          count := "SELECT COUNT(*) AS count FROM t WHERE 1=1 AND (a = $1) AND (b = $2 OR a = $3)"
          params := [.text "1", .text "2", .text "3"] } :=
    eq_ok_of_toOption (by decide +kernel)
  obtain ⟨condition, order, e, hcount, -, -, he, -, hmeans⟩ :=
    statements_within_imposed _ _ _ (by decide +kernel) rfl rfl h
  refine ⟨_, h, rfl, condition, e, hcount, he, ?_⟩
  intro predicates
  rw [hmeans]
  simp [Filter.value, Filter.predicateCount, Filter.predicates, Term.values, Term.value,
    Term.link, Term.predicates, Term.predicatesOf, anyRunHolds_cons, holdsFrom]

end UrlFilter.Sql
