import UrlFilter.Proofs.Sql.Lowering

/-! The verdict on a filter. Which operators and values a field takes is said here by lists, and
columns play no part in it: a predicate fits a schema, or it is refused for one of three faults, by
the type of its field. The first predicate of the tree that does not fit decides the outcome of a
lowering, whatever is written and bound before: `error_of_first_misfit`. -/
namespace UrlFilter

/-- The operators that fields of the type take. -/
def FieldType.operators : FieldType → List Operator
  | simple | numeric | time => [.equal, .notEqual, .less, .lessEqual, .greater, .greaterEqual]
  | string => Operator.all
  | bool => [.equal, .notEqual]

theorem FieldType.allows_iff {type : FieldType} {op : Operator} :
    type.allows op = true ↔ op ∈ type.operators := by
  cases type with
  | string => exact iff_of_true rfl (Operator.mem_all op)
  | simple | numeric | time | bool => cases op <;> decide

/-- The spellings of truth values. -/
def Sql.Parameter.boolSpellings : List String :=
  ["1", "t", "T", "TRUE", "true", "True", "0", "f", "F", "FALSE", "false", "False"]

theorem Sql.Parameter.bool?_eq_none_iff {value : String} :
    bool? value = none ↔ value ∉ boolSpellings := by
  unfold bool? boolSpellings
  split <;> simp_all

namespace Predicate

open Sql (LoweringError Binding)
open Sql.Parameter (boolSpellings)

/-- Whether the predicate fits the schema: its field stands for a column, fields of this type take
the operator, and the value spells a truth value where the field is one. -/
def Fits (fields : FilterFields) (p : Predicate) : Prop :=
  ∃ type, fields.typeOf? p.field = some type ∧ p.op ∈ type.operators ∧
    (type = .bool → p.value ∈ boolSpellings)

/-- Whether the predicate is refused with the error. It is refused for its operator only if its
field is known, and for its value only if its operator is taken. -/
def IsRefusedWith (fields : FilterFields) (p : Predicate) : LoweringError → Prop
  | .unknownField field => field = p.field ∧ fields.typeOf? p.field = none
  | .operatorNotAllowed op field type =>
    op = p.op ∧ field = p.field ∧ fields.typeOf? p.field = some type ∧ p.op ∉ type.operators
  | .notABool field value =>
    field = p.field ∧ value = p.value ∧ fields.typeOf? p.field = some .bool ∧
      p.op ∈ FieldType.bool.operators ∧ p.value ∉ boolSpellings

variable {fields : FilterFields} {p : Predicate} {e : LoweringError}

theorem exists_find?_of_typeOf? {name : String} {type : FieldType}
    (h : fields.typeOf? name = some type) : ∃ column, fields.find? name = some (column, type) := by
  obtain ⟨⟨column, type'⟩, hfind, rfl⟩ := Option.map_eq_some_iff.mp h
  exact ⟨column, hfind⟩

theorem fits_or_isRefusedWith (fields : FilterFields) (p : Predicate) :
    p.Fits fields ∨ ∃ e, p.IsRefusedWith fields e := by
  cases htype : fields.typeOf? p.field with
  | none => exact .inr ⟨.unknownField p.field, rfl, htype⟩
  | some type =>
    by_cases hop : p.op ∈ type.operators
    · by_cases hvalue : type = .bool → p.value ∈ boolSpellings
      · exact .inl ⟨type, htype, hop, hvalue⟩
      · obtain ⟨rfl, hno⟩ := Classical.not_imp.mp hvalue
        exact .inr ⟨.notABool p.field p.value, rfl, rfl, htype, hop, hno⟩
    · exact .inr ⟨.operatorNotAllowed p.op p.field type, rfl, rfl, htype, hop⟩

theorem exists_binding_of_fits (h : p.Fits fields) :
    ∃ b, Binding.ofPredicate fields p = .ok b := by
  obtain ⟨type, htype, hop, hvalue⟩ := h
  obtain ⟨column, hfind⟩ := exists_find?_of_typeOf? htype
  unfold Binding.ofPredicate FieldType.sqlOperator?
  rw [hfind]
  dsimp only
  rw [if_pos (FieldType.allows_iff.mpr hop)]
  dsimp only
  split
  · rename_i hbool
    cases hb : Sql.Parameter.bool? p.value with
    | none => exact absurd (hvalue hbool) (Sql.Parameter.bool?_eq_none_iff.mp hb)
    | some b => exact ⟨_, rfl⟩
  · exact ⟨_, rfl⟩

theorem ofPredicate_of_isRefusedWith (h : p.IsRefusedWith fields e) :
    Binding.ofPredicate fields p = .error e := by
  unfold Binding.ofPredicate FieldType.sqlOperator?
  cases e with
  | unknownField field =>
    obtain ⟨rfl, hnone⟩ := h
    rw [Option.map_eq_none_iff.mp hnone]
  | operatorNotAllowed op field type =>
    obtain ⟨rfl, rfl, htype, hop⟩ := h
    obtain ⟨column, hfind⟩ := exists_find?_of_typeOf? htype
    rw [hfind]
    dsimp only
    rw [if_neg (fun hallows => hop (FieldType.allows_iff.mp hallows))]
  | notABool field value =>
    obtain ⟨rfl, rfl, htype, hop, hvalue⟩ := h
    obtain ⟨column, hfind⟩ := exists_find?_of_typeOf? htype
    rw [hfind]
    dsimp only
    rw [if_pos (FieldType.allows_iff.mpr hop)]
    dsimp only
    rw [if_pos rfl, Sql.Parameter.bool?_eq_none_iff.mpr hvalue]

theorem ofPredicate_eq_error_iff :
    Binding.ofPredicate fields p = .error e ↔ p.IsRefusedWith fields e := by
  refine ⟨fun h => ?_, ofPredicate_of_isRefusedWith⟩
  rcases fits_or_isRefusedWith fields p with hfits | ⟨e', he'⟩
  · obtain ⟨b, hb⟩ := exists_binding_of_fits hfits
    rw [h] at hb
    cases hb
  · rw [ofPredicate_of_isRefusedWith he'] at h
    cases h
    exact he'

theorem exists_binding_iff : (∃ b, Binding.ofPredicate fields p = .ok b) ↔ p.Fits fields := by
  refine ⟨?_, exists_binding_of_fits⟩
  rintro ⟨b, hb⟩
  rcases fits_or_isRefusedWith fields p with hfits | ⟨e, he⟩
  · exact hfits
  · rw [ofPredicate_of_isRefusedWith he] at hb
    cases hb

end Predicate

namespace Sql

variable {fields : FilterFields} {ps : List Predicate} {e : LoweringError}

theorem firstFault?_eq_none_iff :
    firstFault? fields ps = none ↔ ∀ p ∈ ps, p.Fits fields := by
  induction ps with
  | nil => exact iff_of_true rfl fun p hp => absurd hp List.not_mem_nil
  | cons p ps ih =>
    rw [firstFault?, List.forall_mem_cons, ← Predicate.exists_binding_iff]
    cases Binding.ofPredicate fields p with
    | error e =>
      refine iff_of_false (Option.some_ne_none e) ?_
      rintro ⟨⟨b, hb⟩, -⟩
      cases hb
    | ok b => exact ih.trans (and_iff_right ⟨b, rfl⟩).symm

theorem firstFault?_eq_some_iff :
    firstFault? fields ps = some e ↔ ∃ before p after, ps = before ++ p :: after ∧
      (∀ q ∈ before, q.Fits fields) ∧ p.IsRefusedWith fields e := by
  constructor
  · intro h
    rcases fitting_cases fields ps with ⟨hnone, -⟩ | ⟨p, after, e', hps, hp, hsome⟩
    · rw [h] at hnone
      cases hnone
    · obtain rfl : e = e' := Option.some.inj (h.symm.trans hsome)
      obtain ⟨bs, hbs⟩ := exists_areBound_fitting fields ps
      exact ⟨fitting fields ps, p, after, hps,
        fun q hq => Predicate.exists_binding_iff.mp (Draft.allBind_of_areBound hbs q hq),
        Predicate.ofPredicate_eq_error_iff.mp hp⟩
  · rintro ⟨before, p, after, rfl, hbefore, hp⟩
    rw [firstFault?_append, firstFault?_eq_none_iff.mpr hbefore, Option.none_or, firstFault?,
      Predicate.ofPredicate_eq_error_iff.mpr hp]

/-- A filter is lowered exactly if all predicates of its tree fit the schema. Otherwise the first of
them from left to right that does not fit is reported, in the words of the client and for the first
of its faults. The draft has no say in it. -/
theorem error_of_first_misfit (fields : FilterFields) (f : Filter) (d : Draft) :
    ((Draft.addFilter fields d f).error = none ↔ ∀ p ∈ f.predicates, p.Fits fields) ∧
      (∀ e, (Draft.addFilter fields d f).error = some e ↔
        ∃ before p after, f.predicates = before ++ p :: after ∧
          (∀ q ∈ before, q.Fits fields) ∧ p.IsRefusedWith fields e) ∧
      ∀ d', (Draft.addFilter fields d' f).error = (Draft.addFilter fields d f).error := by
  refine ⟨?_, fun e => ?_, fun d' => ?_⟩
  · rw [error_addFilter]
    exact firstFault?_eq_none_iff
  · rw [error_addFilter]
    exact firstFault?_eq_some_iff
  · rw [error_addFilter, error_addFilter]

/-- The first misfit has two faults, and another one stands behind it in the same group. -/
example : (Draft.addFilter (.ofList [("a", .numeric), ("t.b", .bool)]) { clause := "WHERE " }
    [.predicate .start ⟨.less, "a", "1"⟩,
      .group .or [.predicate .start ⟨.like, "b", "x"⟩, .predicate .and ⟨.equal, "c", "1"⟩]]).error =
    some (.operatorNotAllowed .like "b" .bool) := by
  decide +kernel

end Sql
end UrlFilter
