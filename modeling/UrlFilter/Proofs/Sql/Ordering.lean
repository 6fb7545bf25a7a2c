import Mathlib.Data.List.Basic
import UrlFilter.Proofs.Schema.Lookup
import UrlFilter.Proofs.Sql.OrderBy

/-! Which order keys ask for. Only the sortable keys count, each with the column that its field
stands for, so that neither the other keys nor the spelling of a field make a difference to the
clause: `order_of_sortable_keys`. -/
namespace UrlFilter

namespace SortFields

/-- The key with the column that its field stands for, if it is sortable. -/
def resolve? (fields : SortFields) (k : SortKey) : Option SortKey :=
  (fields.find? k.field).map fun column => { k with field := column }

/-- Whether the field of the key stands for a column. -/
def isSortable (fields : SortFields) (k : SortKey) : Bool :=
  (fields.resolve? k).isSome

/-- The key with the name of its column in full. A key that is not sortable stays as it is. -/
def inFull (fields : SortFields) (k : SortKey) : SortKey :=
  (fields.resolve? k).getD k

variable {fields : SortFields} {k k' : SortKey}

theorem field_mem_of_resolve? (h : fields.resolve? k = some k') : k'.field ∈ fields.columns := by
  obtain ⟨column, hcolumn, rfl⟩ := Option.map_eq_some_iff.mp h
  exact mem_of_find? hcolumn

/-- A column stands for itself. -/
theorem resolve?_of_resolve? (h : fields.resolve? k = some k') :
    fields.resolve? k' = some k' := by
  rw [resolve?, find?_of_mem (field_mem_of_resolve? h)]
  rfl

theorem resolve?_inFull (k : SortKey) : fields.resolve? (fields.inFull k) = fields.resolve? k := by
  unfold inFull
  cases h : fields.resolve? k with
  | none => exact h
  | some k' => exact resolve?_of_resolve? h

end SortFields

namespace Sql

/-- Whether the last character of the clause is a blank. -/
def EndsInBlank (clause : String) : Prop :=
  ∃ before, clause = before ++ " "

/-- The sortable keys with their columns. -/
def resolved (fields : SortFields) (keys : List SortKey) : List SortKey :=
  keys.filterMap fields.resolve?

variable {fields : SortFields} {keys keys' : List SortKey}

theorem gapAfter_spec (clause : String) :
    (gapAfter clause = " " ∧ clause ≠ "" ∧ ¬ EndsInBlank clause) ∨
      (gapAfter clause = "" ∧ (clause = "" ∨ EndsInBlank clause)) := by
  rcases List.eq_nil_or_concat clause.toList with hnil | ⟨before, c, hlast⟩
  · obtain rfl : clause = "" := String.toList_inj.mp hnil
    exact .inr ⟨rfl, .inl rfl⟩
  · by_cases hc : c = ' '
    · subst hc
      refine .inr ⟨?_, .inr ⟨String.ofList before, String.toList_inj.mp (by simp [hlast])⟩⟩
      rw [gapAfter, hlast, List.concat_eq_append, List.getLast?_concat]
      rfl
    · rw [List.concat_eq_append] at hlast
      refine .inl ⟨gapAfter_of_last hlast hc, ?_, ?_⟩
      · rintro rfl
        simp at hlast
      · rintro ⟨start, rfl⟩
        rw [String.toList_append] at hlast
        exact hc (List.append_inj_right' hlast rfl |> List.singleton_inj.mp).symm

theorem orderEntries_eq :
    orderEntries fields keys = (resolved fields keys).map fun k => k.field ++ direction k := by
  rw [resolved, List.map_filterMap]
  refine List.filterMap_congr fun k _ => ?_
  rw [SortFields.resolve?, Option.map_map]
  rfl

/-- The order depends on the sortable keys and their columns alone. -/
theorem addOrder_congr (clause : String) (h : resolved fields keys' = resolved fields keys) :
    addOrder fields clause keys' = addOrder fields clause keys := by
  rw [addOrder_eq, addOrder_eq, orderEntries_eq, orderEntries_eq, h]

theorem resolved_filter (keys : List SortKey) :
    resolved fields (keys.filter fields.isSortable) = resolved fields keys := by
  rw [resolved, resolved, List.filterMap_filter]
  refine List.filterMap_congr fun k _ => ?_
  cases h : fields.resolve? k <;> simp [SortFields.isSortable, h]

theorem resolved_map_inFull (keys : List SortKey) :
    resolved fields (keys.map fields.inFull) = resolved fields keys := by
  rw [resolved, List.filterMap_map]
  exact List.filterMap_congr fun k _ => SortFields.resolve?_inFull k

theorem resolved_eq_nil_iff :
    resolved fields keys = [] ↔ ∀ k ∈ keys, fields.find? k.field = none := by
  simp [resolved, SortFields.resolve?]

/-- An order is written exactly if a key is sortable, behind a blank where the clause needs one. It
names the columns of the sortable keys in turn, which are among those that the schema allows, with
their directions. Other keys may stand anywhere among them, and fields be spelt as their columns. -/
theorem order_of_sortable_keys (fields : SortFields) (keys : List SortKey) (clause : String) :
    ((∀ k ∈ keys, fields.find? k.field = none) → addOrder fields clause keys = clause) ∧
    ((∃ k ∈ keys, fields.find? k.field ≠ none) → ∃ gap,
      (gap = " " ∧ clause ≠ "" ∧ ¬ EndsInBlank clause ∨
        gap = "" ∧ (clause = "" ∨ EndsInBlank clause)) ∧
      addOrder fields clause keys = clause ++ gap ++ "ORDER BY " ++
        ", ".intercalate ((resolved fields keys).map fun k =>
          k.field ++ if k.descending then " DESC" else "")) ∧
    (∀ k ∈ resolved fields keys, k.field ∈ fields.columns) ∧
    (∀ keys', keys'.filter fields.isSortable = keys.filter fields.isSortable →
      addOrder fields clause keys' = addOrder fields clause keys) ∧
    addOrder fields clause (keys.map fields.inFull) = addOrder fields clause keys := by
  refine ⟨fun hnone => ?_, fun ⟨k, hk, hsome⟩ => ⟨gapAfter clause, gapAfter_spec clause, ?_⟩,
    fun k hk => ?_, fun keys' hkeys => addOrder_congr clause ?_,
    addOrder_congr clause (resolved_map_inFull keys)⟩
  · rw [addOrder_eq, orderEntries_eq, resolved_eq_nil_iff.mpr hnone]
    rfl
  · have hne : resolved fields keys ≠ [] := fun hnil =>
      hsome (resolved_eq_nil_iff.mp hnil k hk)
    rw [addOrder_eq, orderEntries_eq, if_neg fun hnil => hne (List.map_eq_nil_iff.mp hnil)]
    rfl
  · obtain ⟨given, -, hgiven⟩ := List.mem_filterMap.mp hk
    exact SortFields.field_mem_of_resolve? hgiven
  · rw [← resolved_filter keys', hkeys, resolved_filter]

/-- Keys that are not sortable leave no trace, and a clause that ends in a blank gets no second
one. -/
example : addOrder ⟨["t.id", "t.name"]⟩ "1 " [⟨"x", false⟩, ⟨"name", true⟩, ⟨"y", true⟩,
    ⟨"t.id", false⟩] = "1 ORDER BY t.name DESC, t.id" := by
  decide +kernel

end Sql
end UrlFilter
