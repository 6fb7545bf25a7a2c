import UrlFilter.Proofs.Query.Tree
import UrlFilter.Proofs.Sql.Where
import UrlFilter.Sql.Statement

/-! Where the values of a text end up. The comparisons of a condition stand in the order of the
predicates, between parentheses and connectives and nothing else, and are numbered from left to
right; the parameters come in the same order. The main statement, `parameters_follow_text`, follows
each term of a text to its comparison and its parameter. -/
namespace UrlFilter.Sql

/-- Whether the parameter is the value of a field of the type: a truth value for truth values, and
else the text itself. -/
def Parameter.Carries (type : FieldType) (value : String) : Parameter → Prop
  | text s => type ≠ .bool ∧ s = value
  | bool b => type = .bool ∧ bool? value = some b

/-- A part of a condition as it is written. -/
inductive Piece where
  | test (c : Comparison)
  | opening
  | closing
  | joining (link : Connective)
  deriving DecidableEq, Repr

namespace Piece

/-- The text of a part. -/
def sql : Piece → String
  | test c => c.sql
  | opening => "("
  | closing => ")"
  | joining link => joiner link

/-- The text of parts in a row. -/
def sqlOf : List Piece → String
  | [] => ""
  | p :: ps => p.sql ++ sqlOf ps

/-- The comparison that the part is, if it is one. -/
def comparison? : Piece → Option Comparison
  | test c => some c
  | opening | closing | joining _ => none

/-- The comparisons among the parts, from left to right. -/
def comparisons (ps : List Piece) : List Comparison :=
  ps.filterMap comparison?

@[simp] theorem sqlOf_append (ps qs : List Piece) : sqlOf (ps ++ qs) = sqlOf ps ++ sqlOf qs := by
  induction ps with
  | nil => simp [sqlOf]
  | cons p ps ih => rw [List.cons_append, sqlOf, sqlOf, ih, String.append_assoc]

@[simp] theorem comparisons_append (ps qs : List Piece) :
    comparisons (ps ++ qs) = comparisons ps ++ comparisons qs :=
  List.filterMap_append

end Piece

/-- The comparisons that predicates stand for behind `n` parameters. -/
def comparisonsFrom (fields : FilterFields) : Nat → List Predicate → List Comparison
  | _, [] => []
  | n, p :: ps => (comparison? fields (n + 1) p).toList ++ comparisonsFrom fields (n + 1) ps

variable {fields : FilterFields}

theorem comparisonsFrom_append (n : Nat) (ps qs : List Predicate) :
    comparisonsFrom fields n (ps ++ qs) =
      comparisonsFrom fields n ps ++ comparisonsFrom fields (n + ps.length) qs := by
  induction ps generalizing n with
  | nil => rfl
  | cons p ps ih =>
    have hn : n + 1 + ps.length = n + (p :: ps).length := by
      rw [List.length_cons]
      omega
    rw [List.cons_append, comparisonsFrom, comparisonsFrom, ih, hn, List.append_assoc]

/-! ## The parts of a condition -/

mutual

/-- The text of a term is its comparisons and what stands around them. -/
theorem exists_pieces_termText (n : Nat) (t : Term) :
    ∃ pieces, termText fields n t = Piece.sqlOf pieces ∧
      Piece.comparisons pieces = comparisonsFrom fields n t.predicates := by
  cases t with
  | predicate link test =>
    cases hc : comparison? fields (n + 1) test with
    | none =>
      refine ⟨[], ?_, ?_⟩
      · rw [termText, hc]
        rfl
      · simp [Term.predicates, comparisonsFrom, hc, Piece.comparisons]
    | some c =>
      refine ⟨[.test c], ?_, ?_⟩
      · rw [termText, hc]
        simp [Piece.sqlOf, Piece.sql]
      · simp [Term.predicates, comparisonsFrom, hc, Piece.comparisons, Piece.comparison?]
  | group link terms =>
    obtain ⟨pieces, htext, hcomparisons⟩ := exists_pieces_termsText true n terms
    refine ⟨.opening :: (pieces ++ [.closing]), ?_, ?_⟩
    · rw [termText, htext]
      simp [Piece.sqlOf, Piece.sql, String.append_assoc]
    · show Piece.comparisons (pieces ++ [.closing]) = _
      rw [Piece.comparisons_append, hcomparisons, Term.predicates]
      exact List.append_nil _

theorem exists_pieces_termsText (first : Bool) (n : Nat) (ts : List Term) :
    ∃ pieces, termsText fields first n ts = Piece.sqlOf pieces ∧
      Piece.comparisons pieces = comparisonsFrom fields n (Term.predicatesOf ts) := by
  cases ts with
  | nil => exact ⟨[], rfl, rfl⟩
  | cons t rest =>
    obtain ⟨ps, hps, hpc⟩ := exists_pieces_termText n t
    obtain ⟨qs, hqs, hqc⟩ := exists_pieces_termsText false (n + t.predicates.length) rest
    -- the joining in front of a term is no comparison
    obtain ⟨js, hjs, hjc⟩ : ∃ js, (if first then "" else joiner t.link) = Piece.sqlOf js ∧
        Piece.comparisons js = [] := by
      cases first with
      | true => exact ⟨[], rfl, rfl⟩
      | false => exact ⟨[.joining t.link], by simp [Piece.sqlOf, Piece.sql], rfl⟩
    refine ⟨js ++ ps ++ qs, ?_, ?_⟩
    · rw [termsText, hjs, hps, hqs, Piece.sqlOf_append, Piece.sqlOf_append]
    · rw [Piece.comparisons_append, Piece.comparisons_append, hjc, hpc, hqc, List.nil_append,
        Term.predicatesOf, comparisonsFrom_append]

end

/-! ## What a predicate is bound to -/

/-- What a binding is made of: the column and the type of the field, an operator that the type
takes, and a parameter that carries the value. -/
theorem ofPredicate_eq_ok_iff {p : Predicate} {b : Binding} :
    Binding.ofPredicate fields p = .ok b ↔ ∃ type, fields.find? p.field = some (b.column, type) ∧
      type.sqlOperator? p.op = some b.op ∧ b.param.Carries type p.value := by
  unfold Binding.ofPredicate
  cases hfind : fields.find? p.field with
  | none => simp
  | some entry =>
    obtain ⟨column, type⟩ := entry
    dsimp only
    cases hop : type.sqlOperator? p.op with
    | none => simp +contextual [hop]
    | some op =>
      dsimp only
      constructor
      · intro h
        by_cases htype : type = .bool
        · rw [if_pos htype] at h
          split at h
          · rename_i truth hvalue
            cases h
            exact ⟨type, rfl, hop, htype, hvalue⟩
          · simp at h
        · rw [if_neg htype] at h
          cases h
          exact ⟨type, rfl, hop, htype, rfl⟩
      · rintro ⟨type', hentry, hop', hcarries⟩
        obtain ⟨rfl, rfl⟩ : column = b.column ∧ type = type' := by simpa using hentry
        obtain rfl : op = b.op := by simpa [hop] using hop'
        obtain ⟨column, op, param⟩ := b
        cases param with
        | text s =>
          obtain ⟨htype, rfl⟩ := hcarries
          rw [if_neg htype]
        | bool truth =>
          obtain ⟨htype, hvalue⟩ := hcarries
          rw [if_pos htype, hvalue]

theorem carries_of_ofPredicate {p : Predicate} {b : Binding} (place : Nat)
    (h : Binding.ofPredicate fields p = .ok b) :
    ∃ column type, fields.find? p.field = some (column, type) ∧
      comparison? fields place p = some ⟨column, p.op, place⟩ ∧
      b.param.Carries type p.value := by
  obtain ⟨type, hfind, -, hcarries⟩ := ofPredicate_eq_ok_iff.mp h
  exact ⟨b.column, type, hfind, (ofPredicate_eq_ok place h).1, hcarries⟩

/-- The predicate at a place has the comparison and the parameter at this place. -/
theorem placed_of_areBound {n : Nat} {ps : List Predicate} {bs : List Binding}
    (h : AreBound fields ps bs) :
    (comparisonsFrom fields n ps).map Comparison.place = List.range' (n + 1) ps.length ∧
      ∀ (i : Nat) (p : Predicate), ps[i]? = some p →
        ∃ column type param, fields.find? p.field = some (column, type) ∧
          (comparisonsFrom fields n ps)[i]? = some ⟨column, p.op, n + i + 1⟩ ∧
          (bs.map Binding.param)[i]? = some param ∧ param.Carries type p.value := by
  induction h generalizing n with
  | nil => exact ⟨rfl, by simp⟩
  | @cons p b ps bs hb _ ih =>
    obtain ⟨hplaces, hall⟩ := ih (n := n + 1)
    obtain ⟨column, type, hfind, hc, hcarries⟩ := carries_of_ofPredicate (n + 1) hb
    have hfrom : comparisonsFrom fields n (p :: ps) =
        ⟨column, p.op, n + 1⟩ :: comparisonsFrom fields (n + 1) ps := by
      rw [comparisonsFrom, hc]
      rfl
    rw [hfrom]
    refine ⟨?_, ?_⟩
    · rw [List.map_cons, hplaces, List.length_cons, List.range'_succ]
    · intro i p' hp'
      cases i with
      | zero =>
        obtain rfl : p = p' := Option.some.inj hp'
        exact ⟨column, type, b.param, hfind, rfl, rfl, hcarries⟩
      | succ i =>
        rw [show n + (i + 1) + 1 = n + 1 + i + 1 by omega]
        exact hall i p' hp'

/-! ## From the text to the statement -/

theorem predicate?_eq_some {x : Lexeme} {p : Predicate} (h : x.predicate? = some p) :
    Operator.ofSpelling? x.op = some p.op ∧ p.field = x.field ∧ p.value = x.value := by
  obtain ⟨op, hop, rfl⟩ := Option.map_eq_some_iff.mp h
  exact ⟨hop, rfl, rfl⟩

/-- The term at a place spells the predicate at this place. -/
theorem exists_predicate_of_tested {s : String} {maxDepth : Nat} {q : Query}
    (h : Query.parse s maxDepth = .ok q) {i : Nat} {x : Lexeme}
    (hx : (Query.tested s)[i]? = some x) :
    ∃ p, q.filter.predicates[i]? = some p ∧ Operator.ofSpelling? x.op = some p.op ∧
      p.field = x.field ∧ p.value = x.value := by
  have hi : (q.filter.predicates.map some)[i]? = some x.predicate? := by
    rw [Query.predicates_of_parse h, List.getElem?_map, hx]
    rfl
  rw [List.getElem?_map, Option.map_eq_some_iff] at hi
  obtain ⟨p, hp, hxp⟩ := hi
  exact ⟨p, hp, predicate?_eq_some hxp.symm⟩

/-- Each term of a text that is no directive has its own comparison and its own parameter, at the
place that it has among these terms. The comparison is of the field's column by the term's
operator, and the parameter carries the term's value. -/
theorem parameters_follow_text (s : String) (maxDepth : Nat) (schema : Schema) (q : Query)
    (f : Fragment) (hparse : Query.parse s maxDepth = .ok q)
    (h : Fragment.ofQuery schema q = .ok f) :
    q.filter.predicateCount = (Query.tested s).length ∧
      f.params.length = (Query.tested s).length ∧
      ∃ pieces, f.whereClause = Piece.sqlOf pieces ∧
        (Piece.comparisons pieces).map Comparison.place =
          List.range' 1 (Query.tested s).length ∧
        ∀ (i : Nat) (x : Lexeme), (Query.tested s)[i]? = some x →
          ∃ column type op param, schema.filterFields.find? x.field = some (column, type) ∧
            Operator.ofSpelling? x.op = some op ∧
            (Piece.comparisons pieces)[i]? = some ⟨column, op, i + 1⟩ ∧
            f.params[i]? = some param ∧ param.Carries type x.value := by
  have htested := Query.predicates_of_parse hparse
  have hcount : q.filter.predicateCount = (Query.tested s).length := by
    simpa [Filter.predicateCount] using congrArg List.length htested
  unfold Fragment.ofQuery at h
  split at h
  · simp at h
  · rename_i d hd
    cases h
    obtain ⟨bs, hbs, rfl⟩ := Draft.addTerms_eq_ok hd
    obtain ⟨pieces, htext, hcomparisons⟩ :=
      @exists_pieces_termsText schema.filterFields true 0 q.filter
    obtain ⟨hplaces, hall⟩ := placed_of_areBound (n := 0) hbs
    have hlength : (Term.predicatesOf q.filter).length = (Query.tested s).length := hcount
    refine ⟨hcount, ?_, pieces, ?_, ?_, ?_⟩
    · simpa [Draft.extend, ← hbs.length_eq] using hlength
    · simpa [Draft.extend] using htext
    · rw [hcomparisons, hplaces, hlength]
    · intro i x hx
      obtain ⟨p, hp, hop, hfield, hvalue⟩ := exists_predicate_of_tested hparse hx
      obtain ⟨column, type, param, hfind, hc, hparam, hcarries⟩ := hall i p hp
      rw [hfield] at hfind
      rw [hvalue] at hcarries
      rw [Nat.zero_add] at hc
      exact ⟨column, type, p.op, param, hfind, hop, hcomparisons ▸ hc,
        by simpa [Draft.extend] using hparam, hcarries⟩

/-- A directive between the terms takes no place, and parentheses take none either. -/
theorem parameters_follow_text_grouped :
    ∃ q f, Query.parse "a=1&sort=b&(b=t|a=>2)" 32 = .ok q ∧
      Fragment.ofQuery ⟨.ofList [("a", .numeric), ("x.b", .bool)], {}⟩ q = .ok f ∧
      f.whereClause = "a = $1 AND (x.b = $2 OR a >= $3)" ∧
      f.params = [.text "1", .bool true, .text "2"] ∧
      ∃ pieces, f.whereClause = Piece.sqlOf pieces ∧
        (Piece.comparisons pieces)[1]? = some ⟨"x.b", .equal, 2⟩ := by
  have hparse : Query.parse "a=1&sort=b&(b=t|a=>2)" 32 = .ok {
      sort := [⟨"b", false⟩]
      filter := [.predicate .start ⟨.equal, "a", "1"⟩,
        .group .and [.predicate .start ⟨.equal, "b", "t"⟩,
          .predicate .or ⟨.greaterEqual, "a", "2"⟩]] } :=
    eq_ok_of_toOption (by decide +kernel)
  have hlower : Fragment.ofQuery ⟨.ofList [("a", .numeric), ("x.b", .bool)], {}⟩ {
      sort := [⟨"b", false⟩]
      filter := [.predicate .start ⟨.equal, "a", "1"⟩,
        .group .and [.predicate .start ⟨.equal, "b", "t"⟩,
          .predicate .or ⟨.greaterEqual, "a", "2"⟩]] } =
      .ok ⟨"a = $1 AND (x.b = $2 OR a >= $3)", "", [.text "1", .bool true, .text "2"]⟩ :=
    eq_ok_of_toOption (by decide +kernel)
  obtain ⟨-, -, pieces, htext, -, hall⟩ := parameters_follow_text _ 32 _ _ _ hparse hlower
  have htested : (Query.tested "a=1&sort=b&(b=t|a=>2)")[1]? = some ⟨"&", 1, "b", "=", "t", 0⟩ := by
    decide +kernel
  obtain ⟨column, type, op, param, hfind, hop, hc, -, -⟩ := hall 1 _ htested
  have hcolumn : FilterFields.find? (.ofList [("a", .numeric), ("x.b", .bool)]) "b" =
      some ("x.b", .bool) := by
    decide +kernel
  obtain ⟨rfl, rfl⟩ : "x.b" = column ∧ FieldType.bool = type := by
    simpa [hcolumn] using hfind
  obtain rfl : Operator.equal = op := Option.some.inj hop
  exact ⟨_, _, hparse, hlower, rfl, rfl, pieces, htext, hc⟩

end UrlFilter.Sql
