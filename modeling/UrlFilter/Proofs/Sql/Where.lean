import Mathlib.Data.List.Forall2
import UrlFilter.Proofs.Sql.Condition

/-! What lowering writes. The text of a condition is a function of the tree and of the number of
parameters bound before it, and the parameters are those of the predicates from left to right. A
lowering that succeeds appends this text and these parameters to its draft. -/
namespace UrlFilter.Sql

/-- The comparison that a predicate stands for when its parameter is at `place`. -/
def comparison? (fields : FilterFields) (place : Nat) (p : Predicate) : Option Comparison :=
  (fields.find? p.field).map fun entry => ⟨entry.1, p.op, place⟩

/-- The comparison as it is written. -/
def Comparison.sql (c : Comparison) : String :=
  c.column ++ " " ++ c.op.sql ++ " " ++ Parameter.placeholder c.place

mutual

/-- The condition of a term behind `n` parameters. -/
def termText (fields : FilterFields) (n : Nat) : Term → String
  | .predicate _ test => ((comparison? fields (n + 1) test).map Comparison.sql).getD ""
  | .group _ terms => "(" ++ termsText fields true n terms ++ ")"

/-- The conditions of terms behind `n` parameters. -/
def termsText (fields : FilterFields) (first : Bool) (n : Nat) : List Term → String
  | [] => ""
  | t :: rest =>
    (if first then "" else joiner t.link) ++ termText fields n t ++
      termsText fields false (n + t.predicates.length) rest

end

/-- Whether the bindings are those of the predicates, in their order. -/
def AreBound (fields : FilterFields) (ps : List Predicate) (bs : List Binding) : Prop :=
  List.Forall₂ (fun p b => Binding.ofPredicate fields p = .ok b) ps bs

variable {fields : FilterFields}

theorem ofPredicate_eq_ok {p : Predicate} {b : Binding} (place : Nat)
    (h : Binding.ofPredicate fields p = .ok b) :
    comparison? fields place p = some ⟨b.column, p.op, place⟩ ∧ b.op = p.op.sql := by
  unfold Binding.ofPredicate at h
  unfold comparison?
  split at h
  · simp at h
  · rename_i column type hfind
    rw [hfind]
    split at h
    · simp at h
    · rename_i op hop
      have hsql : op = p.op.sql := by
        unfold FieldType.sqlOperator? at hop
        split at hop
        · exact (Option.some.inj hop).symm
        · simp at hop
      split at h
      · split at h
        · cases h
          exact ⟨rfl, hsql⟩
        · simp at h
      · cases h
        exact ⟨rfl, hsql⟩

namespace Draft

/-- A draft with a text and parameters behind its own. -/
def extend (d : Draft) (text : String) (params : List Parameter) : Draft :=
  ⟨d.clause ++ text, d.params ++ params⟩

theorem bind_eq_extend {d : Draft} {p : Predicate} {b : Binding}
    (h : Binding.ofPredicate fields p = .ok b) :
    d.bind b = d.extend
      (((comparison? fields (d.params.length + 1) p).map Comparison.sql).getD "") [b.param] := by
  obtain ⟨hc, hop⟩ := ofPredicate_eq_ok (d.params.length + 1) h
  rw [hc]
  simp [bind, extend, Comparison.sql, hop, String.append_assoc]

mutual

/-- What a term adds to a draft. -/
theorem addTerm_eq_ok {d d' : Draft} {t : Term} (h : addTerm fields d t = ⟨d', none⟩) :
    ∃ bs, AreBound fields t.predicates bs ∧
      d' = d.extend (termText fields d.params.length t) (bs.map Binding.param) := by
  cases t with
  | predicate link test =>
    rw [addTerm] at h
    split at h
    · simp at h
    · rename_i b hb
      cases h
      exact ⟨[b], .cons hb .nil, bind_eq_extend hb⟩
  | group link terms =>
    rw [addTerm] at h
    split at h
    · rename_i inner hinner
      cases h
      -- parentheses bind nothing, so the terms are numbered as if they stood alone
      obtain ⟨bs, hbs, rfl⟩ := addTerms_eq_ok hinner
      refine ⟨bs, hbs, ?_⟩
      simp [extend, write, termText, String.append_assoc]
    · rename_i hne
      exact absurd h (hne d')

/-- What terms add to a draft. -/
theorem addTerms_eq_ok {first : Bool} {d d' : Draft} {ts : List Term}
    (h : addTerms fields first d ts = ⟨d', none⟩) :
    ∃ bs, AreBound fields (Term.predicatesOf ts) bs ∧
      d' = d.extend (termsText fields first d.params.length ts) (bs.map Binding.param) := by
  cases ts with
  | nil =>
    cases h
    exact ⟨[], .nil, by simp [extend, termsText]⟩
  | cons t rest =>
    rw [addTerms] at h
    split at h
    · rename_i next hnext
      obtain ⟨bs, hbs, rfl⟩ := addTerm_eq_ok hnext
      obtain ⟨cs, hcs, rfl⟩ := addTerms_eq_ok h
      refine ⟨bs ++ cs, List.rel_append hbs hcs, ?_⟩
      -- the terms behind the first are numbered on from its last predicate
      have hlength := hbs.length_eq
      cases first <;>
        simp [extend, write, termsText, String.append_assoc, hlength]
    · rename_i hne
      exact absurd h (hne d')

end

/-! ## Which lowerings succeed -/

/-- Whether every one of the predicates fits the schema. -/
def AllBind (fields : FilterFields) (ps : List Predicate) : Prop :=
  ∀ p ∈ ps, ∃ b, Binding.ofPredicate fields p = .ok b

theorem allBind_append {ps qs : List Predicate} :
    AllBind fields (ps ++ qs) ↔ AllBind fields ps ∧ AllBind fields qs :=
  List.forall_mem_append

theorem allBind_of_areBound {ps : List Predicate} {bs : List Binding}
    (h : AreBound fields ps bs) : AllBind fields ps := by
  induction h with
  | nil => exact fun p hp => absurd hp List.not_mem_nil
  | cons hb _ ih => exact List.forall_mem_cons.mpr ⟨⟨_, hb⟩, ih⟩

mutual

theorem exists_addTerm (d : Draft) (t : Term) (h : AllBind fields t.predicates) :
    ∃ d', addTerm fields d t = ⟨d', none⟩ := by
  cases t with
  | predicate link test =>
    obtain ⟨b, hb⟩ := h test List.mem_cons_self
    exact ⟨d.bind b, by rw [addTerm, hb]⟩
  | group link terms =>
    obtain ⟨d', hd⟩ := exists_addTerms true (d.write "(") terms h
    exact ⟨d'.write ")", by rw [addTerm, hd]⟩

theorem exists_addTerms (first : Bool) (d : Draft) (ts : List Term)
    (h : AllBind fields (Term.predicatesOf ts)) :
    ∃ d', addTerms fields first d ts = ⟨d', none⟩ := by
  cases ts with
  | nil => exact ⟨d, rfl⟩
  | cons t rest =>
    obtain ⟨ht, hrest⟩ := allBind_append.mp h
    obtain ⟨next, hnext⟩ := exists_addTerm (if first then d else d.write (joiner t.link)) t ht
    obtain ⟨d', hd⟩ := exists_addTerms false next rest hrest
    refine ⟨d', ?_⟩
    rw [addTerms, hnext]
    exact hd

end

/-- A filter is lowered exactly if all its predicates fit the schema. -/
theorem addFilter_succeeds_iff {d : Draft} {f : Filter} :
    (∃ d', addFilter fields d f = ⟨d', none⟩) ↔ AllBind fields f.predicates := by
  constructor
  · rintro ⟨d', h⟩
    obtain ⟨bs, hbs, -⟩ := addTerms_eq_ok h
    exact allBind_of_areBound hbs
  · exact exists_addTerms true d f

end Draft
end UrlFilter.Sql
