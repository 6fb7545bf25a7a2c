import UrlFilter.Proofs.Filter.Precedence
import UrlFilter.Proofs.Sql.Meaning

/-! Clauses and the order of their terms. A clause holds its terms in a row, and whoever reads it
lets AND bind tighter than OR. So it says what its terms say from left to right only where no AND
stands behind an OR. -/
namespace UrlFilter.Sql

/-- The clause of a filter has a reading, which is what its terms come to from left to right for
all truth values of its comparisons exactly if no list of the filter has an AND behind an OR. -/
theorem clause_in_order_iff (fields : FilterFields) (hplain : HasPlainNames fields) (f : Filter)
    (params : List Parameter) (d : Draft) (hne : f ≠ []) (hfull : f.hasEmptyGroup = false)
    (h : Draft.addFilter fields ⟨"", params⟩ f = ⟨d, none⟩) :
    (∃ e, Reads false .disjunction d.clause.toList e) ∧
      ∀ e, Reads false .disjunction d.clause.toList e →
        ((∀ predicates : Nat → Bool, e.holds (fun c => predicates c.place) =
            f.valueInOrder predicates params.length) ↔ f.mixes = false) := by
  obtain ⟨hreads, hmeans⟩ := reads_clause hplain hne h
  refine ⟨hreads.mpr hfull, fun e he => ?_⟩
  rw [← Filter.value_eq_valueInOrder_iff params.length hne hfull]
  refine forall_congr' fun predicates => ?_
  rw [hmeans e he _ predicates (agrees_place _ _ _ _)]

/-- Where only ORs stand behind an OR, the clause can be read from left to right. -/
theorem clause_in_order_iff_and_first :
    ∃ d e, Draft.addFilter (.ofList [("a", .numeric)]) {} [.predicate .start ⟨.equal, "a", "1"⟩,
        .predicate .and ⟨.less, "a", "2"⟩, .predicate .or ⟨.equal, "a", "3"⟩] = ⟨d, none⟩ ∧
      d.clause = "a = $1 AND a < $2 OR a = $3" ∧
      Reads false .disjunction d.clause.toList e ∧
      ∀ predicates : Nat → Bool, e.holds (fun c => predicates c.place) =
        ((predicates 1 && predicates 2) || predicates 3) := by
  have hlower : Draft.addFilter (.ofList [("a", .numeric)]) {}
      [.predicate .start ⟨.equal, "a", "1"⟩, .predicate .and ⟨.less, "a", "2"⟩,
        .predicate .or ⟨.equal, "a", "3"⟩] =
      ⟨⟨"a = $1 AND a < $2 OR a = $3", [.text "1", .text "2", .text "3"]⟩, none⟩ := by
    decide +kernel
  obtain ⟨⟨e, he⟩, hiff⟩ := clause_in_order_iff (.ofList [("a", .numeric)]) (by decide +kernel)
    _ [] _ (by simp) rfl hlower
  exact ⟨_, e, hlower, rfl, he, fun predicates => (hiff e he).mpr rfl predicates⟩

/-- The clause of `a=1|b=2&c=3` holds where only its first comparison does, but from left to right
its terms then come to nothing. -/
theorem clause_out_of_order :
    ∃ q fragment e, Query.parse "a=1|b=2&c=3" 32 = .ok q ∧
      Fragment.ofQuery ⟨.ofList [("a", .numeric), ("b", .numeric), ("c", .numeric)], {}⟩ q =
        .ok fragment ∧
      fragment.whereClause = "a = $1 OR b = $2 AND c = $3" ∧
      Reads false .disjunction fragment.whereClause.toList e ∧
      e.holds (fun c => c.place == 1) = true ∧
      q.filter.valueInOrder (fun place => place == 1) 0 = false := by
  obtain ⟨f, hparse, hlower, hne, hvalue, horder⟩ : ∃ f : Filter,
      Query.parse "a=1|b=2&c=3" 32 = .ok { filter := f } ∧
      Draft.addFilter (.ofList [("a", .numeric), ("b", .numeric), ("c", .numeric)]) {} f =
        ⟨⟨"a = $1 OR b = $2 AND c = $3", [.text "1", .text "2", .text "3"]⟩, none⟩ ∧
      f ≠ [] ∧ f.value (fun place => place == 1) 0 = true ∧
      f.valueInOrder (fun place => place == 1) 0 = false :=
    ⟨[.predicate .start ⟨.equal, "a", "1"⟩, .predicate .or ⟨.equal, "b", "2"⟩,
      .predicate .and ⟨.equal, "c", "3"⟩],
      eq_ok_of_toOption (by decide +kernel), by decide +kernel, by simp, by decide, by decide⟩
  have hfragment : Fragment.ofQuery
      ⟨.ofList [("a", .numeric), ("b", .numeric), ("c", .numeric)], {}⟩ { filter := f } =
        .ok ⟨"a = $1 OR b = $2 AND c = $3", "", [.text "1", .text "2", .text "3"]⟩ := by
    simp only [Fragment.ofQuery, hlower]
    rfl
  obtain ⟨hreads, hmeans⟩ := reads_clause (by decide +kernel) hne hlower
  obtain ⟨e, he⟩ := hreads.mpr (Query.hasEmptyGroup_of_parse hparse)
  refine ⟨_, _, e, hparse, hfragment, rfl, he, ?_, horder⟩
  rw [hmeans e he _ _ (agrees_place _ (fun place => place == 1) _ _)]
  exact hvalue

end UrlFilter.Sql
