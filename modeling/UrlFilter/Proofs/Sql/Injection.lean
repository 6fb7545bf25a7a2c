import UrlFilter.Proofs.Schema.Resolution
import UrlFilter.Proofs.Sql.Placement
import UrlFilter.Proofs.Sql.Statement

/-! Texts of clients stay out of the texts of statements. Two filters are alike if they have the
same tree and their predicates ask the same of the same columns; fields may be spelled in different
ways, and values are free. Lowered against one schema, alike filters give one text, and their
parameters differ only where their values do. -/
namespace UrlFilter

namespace Term

mutual

/-- Whether two terms have the same tree, the same connectives, the same operators and the same
columns. -/
def IsAlike (fields : FilterFields) : Term → Term → Prop
  | predicate link p, predicate link' q =>
    link = link' ∧ p.op = q.op ∧ fields.column? p.field = fields.column? q.field
  | group link ts, group link' us => link = link' ∧ AreAlike fields ts us
  | predicate _ _, group _ _ | group _ _, predicate _ _ => False

/-- Whether the terms of two lists are alike one by one. -/
def AreAlike (fields : FilterFields) : List Term → List Term → Prop
  | [], [] => True
  | t :: ts, u :: us => IsAlike fields t u ∧ AreAlike fields ts us
  | [], _ :: _ | _ :: _, [] => False

end

end Term

namespace Sql

/-- Whether two predicates ask the same of the same column, if of different values. -/
def AskAlike (fields : FilterFields) (p q : Predicate) : Prop :=
  p.op = q.op ∧ fields.find? p.field = fields.find? q.field

/-- Whether the parameters of two lists differ only at the places of predicates whose values do. The
first predicate's parameter stands behind `n` others. -/
structure DifferByValue (n : Nat) (ps qs : List Predicate) (params params' : List Parameter) :
    Prop where
  length : params.length = params'.length
  place : ∀ i, params[i]? ≠ params'[i]? →
    ∃ j p q, i = n + j ∧ ps[j]? = some p ∧ qs[j]? = some q ∧ p.value ≠ q.value

/-- Whether predicates with different values are never of truth values. -/
def DifferOffBool (fields : FilterFields) (ps qs : List Predicate) : Prop :=
  ∀ (j : Nat) (p q : Predicate), ps[j]? = some p → qs[j]? = some q → p.value ≠ q.value →
    ∀ column type, fields.find? p.field = some (column, type) → type ≠ .bool

/-- Whether two listings ask for the same rows in the same order, up to the fields' spelling and
the values of their filters. -/
structure Listing.IsAlike (fields : FilterFields) (l l' : Listing) : Prop where
  table : l.table = l'.table
  columns : l.columns = l'.columns
  imposed : Term.AreAlike fields l.imposed l'.imposed
  filter : Term.AreAlike fields l.query.filter l'.query.filter
  sort : l.query.sort = l'.query.sort
  limit : l.query.limit = l'.query.limit
  offset : l.query.offset = l'.query.offset
  defaultSort : l.defaultSort = l'.defaultSort

variable {fields : FilterFields} {p q : Predicate} {ps qs : List Predicate} {f g : Filter}

/-! ## One text -/

mutual

theorem predicates_isAlike {t u : Term} (h : t.IsAlike fields u) :
    List.Forall₂ (AskAlike fields) t.predicates u.predicates := by
  cases t with
  | predicate link p =>
    cases u with
    | predicate link' q =>
      obtain ⟨-, hop, hcolumn⟩ := h
      exact .cons ⟨hop, FilterFields.find?_eq_of_column? hcolumn⟩ .nil
    | group link' us => exact h.elim
  | group link ts =>
    cases u with
    | predicate link' q => exact h.elim
    | group link' us => exact predicates_areAlike h.2

theorem predicates_areAlike {ts us : List Term} (h : Term.AreAlike fields ts us) :
    List.Forall₂ (AskAlike fields) (Term.predicatesOf ts) (Term.predicatesOf us) := by
  cases ts with
  | nil =>
    cases us with
    | nil => exact .nil
    | cons u us => exact h.elim
  | cons t ts =>
    cases us with
    | nil => exact h.elim
    | cons u us => exact List.rel_append (predicates_isAlike h.1) (predicates_areAlike h.2)

end

theorem link_eq_of_isAlike {t u : Term} (h : t.IsAlike fields u) : t.link = u.link := by
  cases t with
  | predicate link p =>
    cases u with
    | predicate link' q => exact h.1
    | group link' us => exact h.elim
  | group link ts =>
    cases u with
    | predicate link' q => exact h.elim
    | group link' us => exact h.1

mutual

/-- Alike terms are written alike. -/
theorem termText_eq_of_isAlike (n : Nat) {t u : Term} (h : t.IsAlike fields u) :
    termText fields n t = termText fields n u := by
  cases t with
  | predicate link p =>
    cases u with
    | predicate link' q =>
      obtain ⟨-, hop, hcolumn⟩ := h
      rw [termText, termText, comparison?, comparison?, hop,
        FilterFields.find?_eq_of_column? hcolumn]
    | group link' us => exact h.elim
  | group link ts =>
    cases u with
    | predicate link' q => exact h.elim
    | group link' us => rw [termText, termText, termsText_eq_of_areAlike true n h.2]

theorem termsText_eq_of_areAlike (first : Bool) (n : Nat) {ts us : List Term}
    (h : Term.AreAlike fields ts us) :
    termsText fields first n ts = termsText fields first n us := by
  cases ts with
  | nil =>
    cases us with
    | nil => rfl
    | cons u us => exact h.elim
  | cons t ts =>
    cases us with
    | nil => exact h.elim
    | cons u us =>
      -- alike terms have equally many predicates, so what follows is numbered alike
      have hcount := (predicates_isAlike h.1).length_eq
      rw [termsText, termsText, link_eq_of_isAlike h.1, termText_eq_of_isAlike n h.1, hcount,
        termsText_eq_of_areAlike false _ h.2]

end

theorem conjunctText_eq_of_areAlike (n : Nat) (h : Term.AreAlike fields f g) :
    conjunctText fields n f = conjunctText fields n g := by
  have hempty : f.isEmpty = g.isEmpty := by
    cases f with
    | nil =>
      cases g with
      | nil => rfl
      | cons u us => exact h.elim
    | cons t ts =>
      cases g with
      | nil => exact h.elim
      | cons u us => rfl
  rw [conjunctText, conjunctText, hempty, termsText_eq_of_areAlike true n h]

/-! ## Parameters that differ by value -/

theorem askAlike_symm (h : AskAlike fields p q) : AskAlike fields q p :=
  ⟨h.1.symm, h.2.symm⟩

/-- Alike predicates with one value have one binding. -/
theorem ofPredicate_of_value_eq {b : Binding} (h : AskAlike fields p q)
    (hvalue : p.value = q.value) (hb : Binding.ofPredicate fields p = .ok b) :
    Binding.ofPredicate fields q = .ok b := by
  rw [ofPredicate_eq_ok_iff] at hb ⊢
  rwa [← h.1, ← h.2, ← hvalue]

/-- A field that is no truth value takes any value. -/
theorem exists_binding_of_ne_bool {b : Binding} (h : AskAlike fields p q)
    (htype : ∀ column type, fields.find? p.field = some (column, type) → type ≠ .bool)
    (hb : Binding.ofPredicate fields p = .ok b) :
    ∃ c, Binding.ofPredicate fields q = .ok c := by
  obtain ⟨type, hfind, hop, -⟩ := ofPredicate_eq_ok_iff.mp hb
  refine ⟨⟨b.column, b.op, .text q.value⟩, ofPredicate_eq_ok_iff.mpr ⟨type, ?_, ?_, ?_⟩⟩
  · rw [← h.2, hfind]
  · rw [← h.1, hop]
  · exact ⟨htype _ _ hfind, rfl⟩

theorem exists_value_ne {bs cs : List Binding} (h : List.Forall₂ (AskAlike fields) ps qs)
    (hps : AreBound fields ps bs) (hqs : AreBound fields qs cs) {j : Nat}
    (hne : (bs.map Binding.param)[j]? ≠ (cs.map Binding.param)[j]?) :
    ∃ p q, ps[j]? = some p ∧ qs[j]? = some q ∧ p.value ≠ q.value := by
  induction h generalizing bs cs j with
  | nil =>
    cases hps
    cases hqs
    exact absurd rfl hne
  | @cons p q ps qs hpq _ ih =>
    cases hps with
    | cons hb hps =>
      cases hqs with
      | cons hc hqs =>
        cases j with
        | zero =>
          refine ⟨p, q, rfl, rfl, fun hvalue => hne ?_⟩
          obtain rfl := Except.ok.inj (hc.symm.trans (ofPredicate_of_value_eq hpq hvalue hb))
          rfl
        | succ j => exact ih hps hqs hne

theorem differByValue_of_areBound {bs cs : List Binding}
    (h : List.Forall₂ (AskAlike fields) ps qs) (hps : AreBound fields ps bs)
    (hqs : AreBound fields qs cs) (params : List Parameter) :
    DifferByValue params.length ps qs (params ++ bs.map Binding.param)
      (params ++ cs.map Binding.param) := by
  refine ⟨?_, fun i hne => ?_⟩
  · simp [← hps.length_eq, ← hqs.length_eq, h.length_eq]
  · have hle : params.length ≤ i := by
      by_contra hlt
      rw [List.getElem?_append_left (by omega), List.getElem?_append_left (by omega)] at hne
      exact hne rfl
    rw [List.getElem?_append_right hle, List.getElem?_append_right hle] at hne
    obtain ⟨p, q, hp, hq, hvalue⟩ := exists_value_ne h hps hqs hne
    exact ⟨i - params.length, p, q, by omega, hp, hq, hvalue⟩

theorem exists_binding_of_askAlike {b : Binding} (h : AskAlike fields p q)
    (hoff : p.value ≠ q.value → ∀ column type, fields.find? p.field = some (column, type) →
      type ≠ .bool) (hb : Binding.ofPredicate fields p = .ok b) :
    ∃ c, Binding.ofPredicate fields q = .ok c := by
  by_cases hvalue : p.value = q.value
  · exact ⟨b, ofPredicate_of_value_eq h hvalue hb⟩
  · exact exists_binding_of_ne_bool h (hoff hvalue) hb

/-- Where truth values do not differ, alike predicates fit the schema or not together. -/
theorem allBind_iff_of_askAlike (h : List.Forall₂ (AskAlike fields) ps qs)
    (hoff : DifferOffBool fields ps qs) :
    Draft.AllBind fields ps ↔ Draft.AllBind fields qs := by
  induction h with
  | nil => exact Iff.rfl
  | @cons p q ps qs hpq _ ih =>
    have hrest : DifferOffBool fields ps qs := fun j p q hp hq => hoff (j + 1) p q hp hq
    have hfirst : (∃ b, Binding.ofPredicate fields p = .ok b) ↔
        ∃ c, Binding.ofPredicate fields q = .ok c := by
      have hvalue := hoff 0 p q rfl rfl
      constructor
      · rintro ⟨b, hb⟩
        exact exists_binding_of_askAlike hpq hvalue hb
      · rintro ⟨c, hc⟩
        -- the other predicate has the same column, and so the same type
        exact exists_binding_of_askAlike (askAlike_symm hpq)
          (fun hne column type hfind => hvalue hne.symm column type (hpq.2.trans hfind)) hc
    unfold Draft.AllBind at ih ⊢
    rw [List.forall_mem_cons, List.forall_mem_cons, hfirst, ih hrest]

/-! ## Filters and listings -/

namespace Listing

variable {l l' : Listing}

theorem IsAlike.predicates (h : IsAlike fields l l') :
    List.Forall₂ (AskAlike fields) l.predicates l'.predicates :=
  List.rel_append (predicates_areAlike h.imposed) (predicates_areAlike h.filter)

theorem IsAlike.conditionText (h : IsAlike fields l l') :
    l.conditionText fields = l'.conditionText fields := by
  have hcount : l.imposed.predicateCount = l'.imposed.predicateCount :=
    (predicates_areAlike h.imposed).length_eq
  rw [Listing.conditionText, Listing.conditionText, hcount,
    conjunctText_eq_of_areAlike 0 h.imposed, conjunctText_eq_of_areAlike _ h.filter]

theorem IsAlike.sort_eq (h : IsAlike fields l l') : l.sort = l'.sort := by
  rw [Listing.sort, Listing.sort, h.sort, h.defaultSort]

end Listing

/-- What a client writes as values, or as other names of the same columns, changes neither the
clause of a filter nor the statements of a listing, but only parameters in its own place; and as
long as no truth value changes, it decides nothing about success either. -/
theorem text_free_of_values (schema : Schema) :
    (∀ (d : Draft) (f g : Filter), Term.AreAlike schema.filterFields f g →
      (∀ d₁ d₂, Draft.addFilter schema.filterFields d f = ⟨d₁, none⟩ →
        Draft.addFilter schema.filterFields d g = ⟨d₂, none⟩ → d₁.clause = d₂.clause ∧
          DifferByValue d.params.length f.predicates g.predicates d₁.params d₂.params) ∧
      (DifferOffBool schema.filterFields f.predicates g.predicates →
        ((∃ d₁, Draft.addFilter schema.filterFields d f = ⟨d₁, none⟩) ↔
          ∃ d₂, Draft.addFilter schema.filterFields d g = ⟨d₂, none⟩))) ∧
    ∀ l l' : Listing, l.IsAlike schema.filterFields l' →
      (∀ st st', l.statements schema = .ok st → l'.statements schema = .ok st' →
        st.select = st'.select ∧ st.count = st'.count ∧
          DifferByValue 0 l.predicates l'.predicates st.params st'.params) ∧
      (DifferOffBool schema.filterFields l.predicates l'.predicates →
        ((∃ st, l.statements schema = .ok st) ↔ ∃ st', l'.statements schema = .ok st')) := by
  constructor
  · intro d f g h
    refine ⟨fun d₁ d₂ hf hg => ?_, fun hoff => ?_⟩
    · obtain ⟨bs, hbs, rfl⟩ := Draft.addTerms_eq_ok hf
      obtain ⟨cs, hcs, rfl⟩ := Draft.addTerms_eq_ok hg
      refine ⟨?_, differByValue_of_areBound (predicates_areAlike h) hbs hcs d.params⟩
      rw [Draft.extend, Draft.extend, termsText_eq_of_areAlike true _ h]
    · rw [Draft.addFilter_succeeds_iff, Draft.addFilter_succeeds_iff]
      exact allBind_iff_of_askAlike (predicates_areAlike h) hoff
  · intro l l' h
    refine ⟨fun st st' hst hst' => ?_, fun hoff => ?_⟩
    · obtain ⟨bs, hbs, rfl⟩ := Listing.statements_eq_ok hst
      obtain ⟨cs, hcs, rfl⟩ := Listing.statements_eq_ok hst'
      refine ⟨?_, ?_, differByValue_of_areBound h.predicates hbs hcs []⟩
      · simp only [h.columns, h.table, h.conditionText, h.sort_eq, h.limit, h.offset]
      · simp only [h.table, h.conditionText]
    · rw [Listing.statements_succeed_iff, Listing.statements_succeed_iff]
      exact allBind_iff_of_askAlike h.predicates hoff

/-- A value that looks like a condition, under another name of the same column, leaves no trace in
the texts. -/
theorem text_free_of_values_quoted :
    ∃ (f g : Filter) (d₁ d₂ : Draft) (st st' : Statements),
      Term.AreAlike (.ofList [("on", .bool), ("x.name", .string)]) f g ∧
      DifferOffBool (.ofList [("on", .bool), ("x.name", .string)]) f.predicates g.predicates ∧
      Draft.addFilter (.ofList [("on", .bool), ("x.name", .string)]) {} f = ⟨d₁, none⟩ ∧
      Draft.addFilter (.ofList [("on", .bool), ("x.name", .string)]) {} g = ⟨d₂, none⟩ ∧
      d₁.clause = d₂.clause ∧ d₁.params = [.text "a", .bool true] ∧
      d₂.params = [.text "' OR $1 = $1 --", .bool true] ∧
      Listing.statements ⟨.ofList [("on", .bool), ("x.name", .string)], {}⟩
        { table := "t", query := { filter := f } } = .ok st ∧
      Listing.statements ⟨.ofList [("on", .bool), ("x.name", .string)], {}⟩
        { table := "t", query := { filter := g } } = .ok st' ∧
      st.select = st'.select ∧ st.count = st'.count := by
  let f : Filter := [.predicate .start ⟨.equal, "name", "a"⟩,
    .group .or [.predicate .start ⟨.equal, "on", "t"⟩]]
  let g : Filter := [.predicate .start ⟨.equal, "x.name", "' OR $1 = $1 --"⟩,
    .group .or [.predicate .start ⟨.equal, "on", "t"⟩]]
  have halike : Term.AreAlike (.ofList [("on", .bool), ("x.name", .string)]) f g :=
    ⟨⟨rfl, rfl, by decide +kernel⟩, ⟨rfl, ⟨rfl, rfl, rfl⟩, trivial⟩, trivial⟩
  have hoff : DifferOffBool (.ofList [("on", .bool), ("x.name", .string)]) f.predicates
      g.predicates := by
    rintro (_ | _ | j) p q hp hq hne column type hfind
    · cases hp
      have hname : FilterFields.find? (.ofList [("on", .bool), ("x.name", .string)]) "name" =
          some ("x.name", .string) := by
        decide +kernel
      rw [hname] at hfind
      cases hfind
      decide
    · cases hp
      cases hq
      exact absurd rfl hne
    · cases hp
  obtain ⟨hfilter, hlisting⟩ :=
    text_free_of_values ⟨.ofList [("on", .bool), ("x.name", .string)], {}⟩
  have hf : Draft.addFilter (.ofList [("on", .bool), ("x.name", .string)]) {} f =
      ⟨⟨"x.name = $1 OR (on = $2)", [.text "a", .bool true]⟩, none⟩ := by
    decide +kernel
  obtain ⟨d₂, hg⟩ := ((hfilter {} f g halike).2 hoff).mp ⟨_, hf⟩
  have hl : Listing.IsAlike (.ofList [("on", .bool), ("x.name", .string)])
      { table := "t", query := { filter := f } } { table := "t", query := { filter := g } } :=
    ⟨rfl, rfl, trivial, halike, rfl, rfl, rfl, rfl⟩
  have hst : Listing.statements ⟨.ofList [("on", .bool), ("x.name", .string)], {}⟩
      { table := "t", query := { filter := f } } = .ok {
        select := "SELECT * FROM t WHERE 1=1 AND (x.name = $1 OR (on = $2))"
        count := "SELECT COUNT(*) AS count FROM t WHERE 1=1 AND (x.name = $1 OR (on = $2))"
        params := [.text "a", .bool true] } :=
    eq_ok_of_toOption (by decide +kernel)
  obtain ⟨st', hst'⟩ := ((hlisting _ _ hl).2 hoff).mp ⟨_, hst⟩
  obtain ⟨hselect, hcount, -⟩ := (hlisting _ _ hl).1 _ _ hst hst'
  have hparams : d₂.params = [.text "' OR $1 = $1 --", .bool true] := by
    have hlower :
        (Draft.addFilter (.ofList [("on", .bool), ("x.name", .string)]) {} g).draft.params =
        [.text "' OR $1 = $1 --", .bool true] := by
      decide +kernel
    rwa [hg] at hlower
  exact ⟨f, g, _, d₂, _, st', halike, hoff, hf, hg, ((hfilter {} f g halike).1 _ _ hf hg).1, rfl,
    hparams, hst, hst', hselect, hcount⟩

end Sql
end UrlFilter
