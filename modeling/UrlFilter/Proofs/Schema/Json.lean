import UrlFilter.Proofs.Json.Decode
import UrlFilter.Schema.Json

/-! Schemas written as JSON and decoded again. The fields of a schema are written in the order of
their names, in which each of them goes behind those that are read before it. -/
namespace UrlFilter

namespace FieldType

theorem roundTrips : Json.RoundTrips toJson ofJson := by
  intro room t
  rw [Json.within_of_le (Nat.zero_le room)]
  simp [toJson, ofJson, ofNameJson]

theorem isWritable_toJson (t : FieldType) : t.toJson.IsWritable :=
  Json.isWritable_text t.name

end FieldType

namespace FilterFields

/-- Written fields go behind the fields that are already read. -/
theorem decodeMembers_entries {room : Nat} {fields : FilterFields}
    {rest : List (String × FieldType)}
    (h : (fields.entries ++ rest).Pairwise fun a b => a.1 < b.1) :
    Json.decodeMembers
      (fun name v fields => (FieldType.ofJson room v).map (fields.insert name))
      (rest.map fun entry => (some entry.1, entry.2.toJson)) fields =
        .ok ⟨fields.entries ++ rest, h⟩ := by
  induction rest generalizing fields with
  | nil => simp [Json.decodeMembers]
  | cons entry rest ih =>
    have hbefore : ∀ other ∈ fields.entries, other.1 < entry.1 := fun other hother =>
      (List.pairwise_append.mp h).2.2 other hother entry List.mem_cons_self
    have hinsert : (fields.insert entry.1 entry.2).entries = fields.entries ++ [entry] :=
      insertByKey_of_forall_lt hbefore
    have hrest : ((fields.insert entry.1 entry.2).entries ++ rest).Pairwise
        fun a b => a.1 < b.1 := by
      rw [hinsert, List.append_assoc]
      exact h
    have htype := FieldType.roundTrips room entry.2
    rw [Json.within_of_le (Nat.zero_le room)] at htype
    rw [List.map_cons, Json.decodeMembers, htype]
    show Json.decodeMembers _ _ (fields.insert entry.1 entry.2) = _
    rw [ih hrest]
    simp only [hinsert, List.append_assoc, List.singleton_append]

theorem nesting_toJson_le_iff {fields : FilterFields} {n : Nat} :
    fields.toJson.nesting ≤ n ↔ 1 ≤ n := by
  cases n with
  | zero => exact iff_of_false (Nat.not_succ_le_zero _) (Nat.not_succ_le_zero _)
  | succ n =>
    rw [toJson, Json.nesting_record_le_iff, List.forall_mem_map]
    exact iff_of_true (fun _ _ => Nat.zero_le n) (Nat.le_add_left 1 n)

theorem roundTrips : Json.RoundTrips toJson ofJson := by
  intro room fields
  cases room with
  | zero => rfl
  | succ room =>
    have hfields := @decodeMembers_entries room ∅ fields.entries fields.ordered
    rw [Json.within_of_le (nesting_toJson_le_iff.mpr (Nat.le_add_left 1 room))]
    rw [toJson, Json.record, List.map_map]
    exact hfields

theorem isWritable_toJson (fields : FilterFields) : fields.toJson.IsWritable := by
  refine Json.isWritable_record (List.forall_mem_map.mpr fun entry _ => ?_)
  exact entry.2.isWritable_toJson

end FilterFields

namespace SortFields

theorem roundTrips : Json.RoundTrips toJson ofJson := by
  intro room fields
  have hcolumns : Json.decodeArray room (fun _ => Json.decodeString) fields.toJson =
      Json.within room fields.toJson fields.columns :=
    Json.roundTrips_text.array room fields.columns
  rw [ofJson, hcolumns, Json.within, Json.within]
  split <;> rfl

theorem nesting_toJson_le_iff {fields : SortFields} {n : Nat} :
    fields.toJson.nesting ≤ n ↔ 1 ≤ n := by
  cases n with
  | zero => exact iff_of_false (Nat.not_succ_le_zero _) (Nat.not_succ_le_zero _)
  | succ n =>
    rw [toJson, Json.nesting_array_le_iff]
    simp [Json.nesting]

theorem isWritable_toJson (fields : SortFields) : fields.toJson.IsWritable := by
  refine Json.isWritable_array ?_
  simp [Json.isWritable_text]

end SortFields

namespace Schema

theorem nesting_toJson_le_iff {s : Schema} {n : Nat} : s.toJson.nesting ≤ n ↔ 2 ≤ n := by
  cases n with
  | zero => exact iff_of_false (Nat.not_succ_le_zero _) (Nat.not_succ_le_zero _)
  | succ n =>
    rw [toJson, Json.nesting_record_le_iff]
    simp [FilterFields.nesting_toJson_le_iff, SortFields.nesting_toJson_le_iff]

theorem roundTrips : Json.RoundTrips toJson ofJson := by
  intro room s
  match room with
  | 0 => rfl
  | 1 =>
    rw [Json.within, if_neg (mt nesting_toJson_le_iff.mp (by decide))]
    rfl
  | room + 2 =>
    have hfilter := FilterFields.roundTrips (room + 1) s.filterFields
    have hsort := SortFields.roundTrips (room + 1) s.sortFields
    rw [Json.within_of_le (FilterFields.nesting_toJson_le_iff.mpr (Nat.le_add_left 1 room))]
      at hfilter
    rw [Json.within_of_le (SortFields.nesting_toJson_le_iff.mpr (Nat.le_add_left 1 room))] at hsort
    rw [Json.within_of_le (nesting_toJson_le_iff.mpr (Nat.le_add_left 2 room))]
    simp [toJson, Json.record, ofJson, Json.decodeRecord, Json.decodeMembers, Parts.put,
      Json.decodeOnce, Except.map, hfilter, hsort]

theorem isWritable_toJson (s : Schema) : s.toJson.IsWritable := by
  refine Json.isWritable_record ?_
  simp [s.filterFields.isWritable_toJson, s.sortFields.isWritable_toJson]

end Schema
end UrlFilter
