import UrlFilter.Proofs.Sql.Lowering
import UrlFilter.Proofs.Sql.OrderBy
import UrlFilter.Proofs.Sql.Statement

/-! The two ways from a query to SQL agree. The statements of a listing are made from a half-built
text, its fragment from nothing, yet a listing has statements exactly if its query has a fragment,
and then they hold the condition and the order of that fragment: `statements_agree_with_fragment`.
Behind an imposed filter only the numbers of the placeholders are greater. -/
namespace UrlFilter.Sql

variable {fields : FilterFields} {schema : Schema} {q : Query} {l : Listing} {g : Fragment}
  {e : LoweringError}

theorem areBound_unique {ps : List Predicate} {bs cs : List Binding} (hbs : AreBound fields ps bs)
    (hcs : AreBound fields ps cs) : bs = cs :=
  List.right_unique_forall₂' (fun _ _ _ hb hc => Except.ok.inj (hb.symm.trans hc)) hbs hcs

/-- What is made of a lowering that may have failed fails with the lowering. -/
theorem Lowered.match_eq_error_iff {α : Type} (r : Lowered) (f : Draft → α) :
    (match r with
      | ⟨_, some e⟩ => Except.error e
      | ⟨d, none⟩ => .ok (f d)) = .error e ↔ r.error = some e := by
  obtain ⟨d, error⟩ := r
  cases error with
  | none => exact ⟨nofun, nofun⟩
  | some e' =>
    exact ⟨fun h => congrArg some (Except.error.inj h),
      fun h => congrArg Except.error (Option.some.inj h)⟩

/-! ## Fragments -/

namespace Fragment

theorem ofQuery_eq_error_iff :
    ofQuery schema q = .error e ↔
      firstFault? schema.filterFields q.filter.predicates = some e := by
  rw [← error_addFilter schema.filterFields {} q.filter]
  exact Lowered.match_eq_error_iff _ _

theorem ofQuery_eq_ok (h : ofQuery schema q = .ok g) :
    ∃ bs, AreBound schema.filterFields q.filter.predicates bs ∧
      g = ⟨termsText schema.filterFields true 0 q.filter, addOrder schema.sortFields "" q.sort,
        bs.map Binding.param⟩ := by
  unfold ofQuery at h
  split at h
  · simp at h
  · rename_i d hd
    cases h
    obtain ⟨bs, hbs, rfl⟩ := Draft.addTerms_eq_ok hd
    exact ⟨bs, hbs, by simp [Draft.extend]⟩

/-- Other keys change the order of a fragment and nothing else. -/
theorem ofQuery_sort (keys : List SortKey) (h : ofQuery schema q = .ok g) :
    ofQuery schema { q with sort := keys } =
      .ok { g with orderBy := addOrder schema.sortFields "" keys } := by
  unfold ofQuery at h ⊢
  split at h
  · simp at h
  · rename_i d hd
    cases h
    rw [hd]

end Fragment

/-! ## Listings -/

namespace Listing

theorem error_addConjunct (fields : FilterFields) (d : Draft) (f : Filter) :
    (addConjunct fields d f).error = firstFault? fields f.predicates := by
  unfold addConjunct
  split
  · rename_i hempty
    rw [List.isEmpty_iff.mp hempty]
    rfl
  · show (Lowered.andThen _ fun d => ⟨d.write ")", none⟩).error = _
    rw [Lowered.error_andThen, error_addFilter]
    exact Option.or_none

theorem error_condition (fields : FilterFields) (l : Listing) :
    (l.condition fields).error = firstFault? fields l.predicates := by
  show (Lowered.andThen _ fun d => addConjunct fields d l.query.filter).error = _
  rw [Lowered.error_andThen, error_addConjunct, error_addConjunct, predicates, firstFault?_append]

theorem statements_eq_error_iff :
    l.statements schema = .error e ↔ firstFault? schema.filterFields l.predicates = some e := by
  rw [← error_condition]
  exact Lowered.match_eq_error_iff _ _

/-- A condition as one more conjunct, unless its filter is empty. -/
def conjunct (f : Filter) (text : String) : String :=
  if f.isEmpty then "" else " AND (" ++ text ++ ")"

/-- The statements of a listing with these conjuncts, this order and these parameters. -/
def assemble (l : Listing) (conjuncts order : String) (params : List Parameter) :
    Statements where
  select := "SELECT " ++ l.columns ++ " FROM " ++ l.table ++ " WHERE 1=1" ++ conjuncts ++
    (if order = "" then "" else " " ++ order) ++
    (if 0 < l.query.limit then " LIMIT " ++ toString l.query.limit.toNat else "") ++
    (if 0 < l.query.offset then " OFFSET " ++ toString l.query.offset.toNat else "")
  count := "SELECT COUNT(*) AS count FROM " ++ l.table ++ " WHERE 1=1" ++ conjuncts
  params := params

/-- No conjunct ends in a blank. -/
theorem exists_last_conjunctText {text : String} (n : Nat) (f : Filter)
    (h : ∃ before c, text.toList = before ++ [c] ∧ c ≠ ' ') :
    ∃ before c, (text ++ conjunctText fields n f).toList = before ++ [c] ∧ c ≠ ' ' := by
  unfold conjunctText
  split
  · rw [String.append_empty]
    exact h
  · refine ⟨(text ++ (" AND (" ++ termsText fields true n f)).toList, ')', ?_, by decide⟩
    simp

theorem exists_last_conditionText (fields : FilterFields) (l : Listing) :
    ∃ before c, (l.conditionText fields).toList = before ++ [c] ∧ c ≠ ' ' :=
  exists_last_conjunctText _ _ (exists_last_conjunctText _ _
    ⟨"WHERE 1=".toList, '1', rfl, by decide⟩)

/-- The statements hold the condition and the order of a fragment. -/
theorem statements_eq_assemble {st : Statements} (h : l.statements schema = .ok st) :
    ∃ bs, AreBound schema.filterFields l.predicates bs ∧
      st = l.assemble (conjunctText schema.filterFields 0 l.imposed ++
          conjunctText schema.filterFields l.imposed.predicateCount l.query.filter)
        (addOrder schema.sortFields "" l.sort) (bs.map Binding.param) := by
  obtain ⟨bs, hbs, rfl⟩ := statements_eq_ok h
  obtain ⟨before, c, hlast, hc⟩ := exists_last_conditionText schema.filterFields l
  have hrows : ("SELECT " ++ l.columns ++ " FROM " ++ l.table ++ " " ++
      l.conditionText schema.filterFields).toList =
        ("SELECT " ++ l.columns ++ " FROM " ++ l.table ++ " ").toList ++ before ++ [c] := by
    rw [String.toList_append, hlast, List.append_assoc]
  refine ⟨bs, hbs, ?_⟩
  have hwhere (text : String) : text ++ " " ++ l.conditionText schema.filterFields =
      text ++ " WHERE 1=1" ++ (conjunctText schema.filterFields 0 l.imposed ++
        conjunctText schema.filterFields l.imposed.predicateCount l.query.filter) := by
    rw [conditionText, show " WHERE 1=1" = " " ++ "WHERE 1=1" from rfl]
    simp only [String.append_assoc]
  rw [addOrder_eq_append hrows hc, hwhere, hwhere]
  rfl


end Listing

/-! ## Agreement -/

open Listing (assemble conjunct)

/-- Behind an imposed filter, too, the statements fail where the fragment does. -/
theorem statements_fail_iff {d : Draft}
    (himposed : Draft.addFilter schema.filterFields {} l.imposed = ⟨d, none⟩) :
    l.statements schema = .error e ↔ Fragment.ofQuery schema l.query = .error e := by
  have hnone : firstFault? schema.filterFields l.imposed.predicates = none := by
    rw [← error_addFilter _ {}, himposed]
  rw [Listing.statements_eq_error_iff, Fragment.ofQuery_eq_error_iff, Listing.predicates,
    firstFault?_append, hnone, Option.none_or]

/-- The condition of a fragment is the rendering of its filter by the columns of the schema. -/
theorem whereClause_eq_sqlOf (h : Fragment.ofQuery schema q = .ok g) :
    g.whereClause =
      Piece.sqlOf (termsPieces (schemaNaming schema.filterFields) true 0 q.filter) := by
  obtain ⟨bs, hbs, rfl⟩ := Fragment.ofQuery_eq_ok h
  exact termsText_eq_sqlOf true 0 q.filter (Draft.allBind_of_areBound hbs)

/-- The statements behind an imposed filter are made of it and of the fragment. -/
theorem statements_eq_of_fragment {d : Draft}
    (himposed : Draft.addFilter schema.filterFields {} l.imposed = ⟨d, none⟩)
    (h : Fragment.ofQuery schema l.query = .ok g) :
    l.statements schema = .ok (l.assemble
      (conjunct l.imposed d.clause ++ conjunct l.query.filter (Piece.sqlOf
        ((termsPieces (schemaNaming schema.filterFields) true 0 l.query.filter).map
          (Piece.shift l.imposed.predicateCount))))
      (addOrder schema.sortFields "" l.sort) (d.params ++ g.params)) := by
  obtain ⟨bs, hbs, rfl⟩ := Draft.addTerms_eq_ok himposed
  obtain ⟨cs, hcs, rfl⟩ := Fragment.ofQuery_eq_ok h
  have hall := Draft.allBind_of_areBound hcs
  obtain ⟨st, hst⟩ := Listing.statements_succeed_iff.mpr
    (Draft.allBind_append.mpr ⟨Draft.allBind_of_areBound hbs, hall⟩)
  obtain ⟨both, hboth, rfl⟩ := Listing.statements_eq_assemble hst
  have hsplit : AreBound schema.filterFields l.predicates (bs ++ cs) := List.rel_append hbs hcs
  obtain rfl := areBound_unique hboth hsplit
  -- the query's placeholders are those of its fragment, behind the imposed ones
  have hshift : termsPieces (schemaNaming schema.filterFields) true
      (0 + l.imposed.predicateCount) l.query.filter =
        (termsPieces (schemaNaming schema.filterFields) true 0 l.query.filter).map
          (Piece.shift l.imposed.predicateCount) :=
    termsPieces_shift _ true 0 _ fun _ _ => rfl
  rw [hst, ← hshift, Nat.zero_add, ← termsText_eq_sqlOf true _ _ hall, List.map_append]
  simp only [Draft.extend, String.empty_append, List.nil_append]
  rfl

/-- The statements of a listing are made of the fragment of its query, with the order that this
query or, in its place, the default asks for, and they fail where the fragment fails. An imposed
filter that is lowered stands before the condition of the fragment in a conjunct of its own, and
the placeholders of the query are numbered on from it. The number of rows does not depend on
columns, order and page. -/
theorem statements_agree_with_fragment (schema : Schema) (l : Listing) :
    (l.imposed = [] →
      (∀ e, l.statements schema = .error e ↔ Fragment.ofQuery schema l.query = .error e) ∧
      ∀ g, Fragment.ofQuery schema l.query = .ok g → ∃ o,
        Fragment.ofQuery schema { l.query with
          sort := if l.query.sort = [] then l.defaultSort else l.query.sort } = .ok o ∧
        l.statements schema =
          .ok (l.assemble (conjunct l.query.filter g.whereClause) o.orderBy g.params)) ∧
    (∀ d, Draft.addFilter schema.filterFields {} l.imposed = ⟨d, none⟩ →
      (∀ e, l.statements schema = .error e ↔ Fragment.ofQuery schema l.query = .error e) ∧
      ∀ g, Fragment.ofQuery schema l.query = .ok g → ∃ parts o,
        parts = termsPieces (schemaNaming schema.filterFields) true 0 l.query.filter ∧
        g.whereClause = Piece.sqlOf parts ∧
        Fragment.ofQuery schema { l.query with
          sort := if l.query.sort = [] then l.defaultSort else l.query.sort } = .ok o ∧
        l.statements schema = .ok (l.assemble
          (conjunct l.imposed d.clause ++ conjunct l.query.filter
            (Piece.sqlOf (parts.map (Piece.shift l.imposed.predicateCount))))
          o.orderBy (d.params ++ g.params))) ∧
    ∀ l' : Listing, l'.table = l.table → l'.imposed = l.imposed →
      l'.query.filter = l.query.filter →
      (l'.statements schema).map Statements.count = (l.statements schema).map Statements.count := by
  have hsort : (if l.query.sort = [] then l.defaultSort else l.query.sort) = l.sort := by
    simp [Listing.sort]
  rw [hsort]
  refine ⟨fun hnone => ?_, fun d himposed => ?_, fun l' htable himposed hfilter => ?_⟩
  · -- no imposed filter is one that leaves an empty draft as it is
    have himposed : Draft.addFilter schema.filterFields {} l.imposed = ⟨{}, none⟩ := by
      rw [hnone]
      rfl
    refine ⟨fun e => statements_fail_iff himposed, fun g hg => ?_⟩
    refine ⟨_, Fragment.ofQuery_sort l.sort hg, ?_⟩
    rw [statements_eq_of_fragment himposed hg, whereClause_eq_sqlOf hg, hnone,
      show Filter.predicateCount [] = 0 from rfl, Piece.shift_zero, List.map_id]
    rfl
  · refine ⟨fun e => statements_fail_iff himposed, fun g hg => ?_⟩
    exact ⟨_, _, rfl, whereClause_eq_sqlOf hg, Fragment.ofQuery_sort l.sort hg,
      statements_eq_of_fragment himposed hg⟩
  · have hcondition : l'.condition schema.filterFields = l.condition schema.filterFields := by
      rw [Listing.condition, Listing.condition, himposed, hfilter]
    rw [Listing.statements, Listing.statements, hcondition, htable]
    cases l.condition schema.filterFields with
    | mk d error =>
      cases error with
      | none => rfl
      | some e => rfl

/-- Behind one imposed parameter the query's first is the second. -/
theorem statements_agree_with_fragment_imposed :
    ∃ (g : Fragment) (parts : List Piece) (o : Fragment),
      Fragment.ofQuery ⟨.ofList [("a", .numeric)], ⟨["a"]⟩⟩
        { filter := [.predicate .start ⟨.equal, "a", "2"⟩], limit := 10 } = .ok g ∧
      g.whereClause = "a = $1" ∧ g.whereClause = Piece.sqlOf parts ∧
      o.orderBy = "ORDER BY a DESC" ∧
      Listing.statements ⟨.ofList [("a", .numeric)], ⟨["a"]⟩⟩ {
          table := "t"
          imposed := [.predicate .start ⟨.equal, "a", "1"⟩]
          query := { filter := [.predicate .start ⟨.equal, "a", "2"⟩], limit := 10 }
          defaultSort := [⟨"a", true⟩] } =
        .ok ⟨"SELECT * FROM t WHERE 1=1 AND (a = $1) AND (" ++
            Piece.sqlOf (parts.map (Piece.shift 1)) ++ ") " ++ o.orderBy ++ " LIMIT 10",
          "SELECT COUNT(*) AS count FROM t WHERE 1=1 AND (a = $1) AND (" ++
            Piece.sqlOf (parts.map (Piece.shift 1)) ++ ")",
          [.text "1"] ++ g.params⟩ := by
  have himposed : Draft.addFilter (.ofList [("a", .numeric)]) {}
      [.predicate .start ⟨.equal, "a", "1"⟩] = ⟨⟨"a = $1", [.text "1"]⟩, none⟩ := by
    decide +kernel
  have hquery : Fragment.ofQuery ⟨.ofList [("a", .numeric)], ⟨["a"]⟩⟩
      { filter := [.predicate .start ⟨.equal, "a", "2"⟩], limit := 10 } =
        .ok ⟨"a = $1", "", [.text "2"]⟩ :=
    eq_ok_of_toOption (by decide +kernel)
  have hordered : Fragment.ofQuery ⟨.ofList [("a", .numeric)], ⟨["a"]⟩⟩
      { filter := [.predicate .start ⟨.equal, "a", "2"⟩], limit := 10, sort := [⟨"a", true⟩] } =
        .ok ⟨"a = $1", "ORDER BY a DESC", [.text "2"]⟩ :=
    eq_ok_of_toOption (by decide +kernel)
  obtain ⟨-, hagree⟩ := (statements_agree_with_fragment ⟨.ofList [("a", .numeric)], ⟨["a"]⟩⟩ {
    table := "t"
    imposed := [.predicate .start ⟨.equal, "a", "1"⟩]
    query := { filter := [.predicate .start ⟨.equal, "a", "2"⟩], limit := 10 }
    defaultSort := [⟨"a", true⟩] }).2.1 _ himposed
  obtain ⟨parts, o, hparts, hwhere, ho, hst⟩ := hagree _ hquery
  obtain rfl := Except.ok.inj (hordered.symm.trans ho)
  refine ⟨_, parts, ⟨"a = $1", "ORDER BY a DESC", [.text "2"]⟩, hquery, rfl, hwhere, rfl, ?_⟩
  rw [hst, hparts]
  refine congrArg Except.ok ?_
  decide +kernel

end UrlFilter.Sql
