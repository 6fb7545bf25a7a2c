import UrlFilter.Filter.Json
import UrlFilter.Proofs.Json.Decode

/-! Filters written as JSON and decoded again. Each level of parentheses opens two levels of the
document, an object and an array, so the limit of nesting bounds the filters that come back:
`Filter.roundTrips` and `Filter.nesting_toJson_le_iff`. -/
namespace UrlFilter
namespace Term

/-! ## Nesting of the document -/

mutual

theorem nesting_toJson (t : Term) :
    2 * t.nesting ≤ t.toJson.nesting ∧ t.toJson.nesting ≤ 2 * t.nesting + 1 := by
  match t with
  | predicate link test =>
    simp [nesting, toJson, Json.record, Json.nesting, Json.nestingOfMembers, Connective.toJson,
      Operator.toJson]
  | group link terms =>
    have hterms := nesting_listToJson terms
    simp only [nesting, toJson, Json.record, Json.nesting, Json.nestingOfMembers,
      Connective.toJson, List.map_cons, List.map_nil]
    omega

theorem nesting_listToJson (ts : List Term) :
    2 * nestingOf ts ≤ Json.nestingOfItems (listToJson ts) ∧
      Json.nestingOfItems (listToJson ts) ≤ 2 * nestingOf ts + 1 := by
  match ts with
  | [] => simp [nestingOf, listToJson, Json.nestingOfItems]
  | t :: ts =>
    have ht := nesting_toJson t
    have hts := nesting_listToJson ts
    simp only [nestingOf, listToJson, Json.nestingOfItems]
    omega

end

/-! ## Texts and numbers of the document -/

mutual

theorem isPlain_toJson (t : Term) : t.toJson.isPlain = true := by
  match t with
  | predicate link test => rfl
  | group link terms =>
    simp [toJson, Json.record, Json.isPlain, Json.membersArePlain, Connective.toJson,
      arePlain_listToJson terms]

theorem arePlain_listToJson (ts : List Term) : Json.arePlain (listToJson ts) = true := by
  match ts with
  | [] => rfl
  | t :: ts => simp [listToJson, Json.arePlain, isPlain_toJson t, arePlain_listToJson ts]

end

mutual

theorem isWritable_toJson (t : Term) : t.toJson.IsWritable := by
  match t with
  | predicate link test =>
    refine Json.isWritable_record ?_
    simp [Connective.toJson, Operator.toJson, Json.isWritable_text]
  | group link terms =>
    refine Json.isWritable_record ?_
    simp [Connective.toJson, Json.isWritable_text,
      Json.isWritable_array (isWritable_of_mem_listToJson terms)]

theorem isWritable_of_mem_listToJson (ts : List Term) : ∀ v ∈ listToJson ts, v.IsWritable := by
  match ts with
  | [] => simp [listToJson]
  | t :: ts =>
    rw [listToJson, List.forall_mem_cons]
    exact ⟨isWritable_toJson t, isWritable_of_mem_listToJson ts⟩

end

/-! ## Decoding -/

theorem ofJson_predicate (room : Nat) (link : Connective) (test : Predicate) :
    ofJson (room + 1) (predicate link test).toJson = .ok (predicate link test) := by
  simp [toJson, Json.record, ofJson, readParts, Connective.toJson, Connective.ofJson,
    Operator.toJson, Operator.ofJson, Json.decodeString, Json.isPlain, Json.nesting, Parts.add,
    Parts.term, sole?, Except.toOption]

/-- Of a group, the terms inside must be decoded before they are put together. -/
theorem ofJson_group {room : Nat} {link : Connective} {terms : List Term}
    (hterms : arrayOfJson room (.array (listToJson terms)) =
      Json.within room (.array (listToJson terms)) terms) :
    ofJson (room + 1) (group link terms).toJson =
      Json.within (room + 1) (group link terms).toJson (group link terms) := by
  have hplain : (Json.array (listToJson terms)).isPlain = true := arePlain_listToJson terms
  have hlogic : Connective.ofJson link.toJson = .ok link := by
    simp [Connective.toJson, Connective.ofJson]
  have hnesting : (group link terms).toJson.nesting ≤ room + 1 ↔
      (Json.array (listToJson terms)).nesting ≤ room := by
    simp [toJson, Json.nesting_record_le_iff, Connective.toJson, Json.nesting]
  simp only [Json.within, hnesting]
  by_cases h : (Json.array (listToJson terms)).nesting ≤ room
  · rw [Json.within_of_le h] at hterms
    simp [toJson, Json.record, ofJson, readParts, hlogic, hplain, h, hterms, Parts.term, sole?,
      Except.toOption]
  · simp [toJson, Json.record, ofJson, readParts, hlogic, h]

mutual

theorem ofJson_toJson (room : Nat) (t : Term) :
    ofJson room t.toJson = Json.within room t.toJson t := by
  match room, t with
  | 0, predicate link test => rfl
  | room + 1, predicate link test => exact ofJson_predicate room link test
  | 0, group link terms => rfl
  | room + 1, group link terms => exact ofJson_group (arrayOfJson_listToJson room terms)

theorem arrayOfJson_listToJson (room : Nat) (ts : List Term) :
    arrayOfJson room (.array (listToJson ts)) =
      Json.within room (.array (listToJson ts)) ts := by
  match room, ts with
  | 0, ts => rfl
  | room + 1, [] => rfl
  | room + 1, t :: ts =>
    have ht := ofJson_toJson room t
    have hts := arrayOfJson_listToJson (room + 1) ts
    show listOfJson room (t.toJson :: listToJson ts) = _
    rw [listOfJson, ht]
    simp only [arrayOfJson] at hts
    rw [hts]
    simp only [Json.within, Json.nesting_array_le_iff, listToJson, List.forall_mem_cons]
    by_cases h : t.toJson.nesting ≤ room
    · by_cases hs : ∀ v ∈ listToJson ts, v.nesting ≤ room
      · rw [if_pos h, if_pos hs, if_pos ⟨h, hs⟩]
      · rw [if_pos h, if_neg hs, if_neg fun hand : _ ∧ _ => hs hand.2]
    · rw [if_neg h, if_neg fun hand : _ ∧ _ => h hand.1]

end

end Term

namespace Filter

theorem roundTrips : Json.RoundTrips toJson ofJson :=
  Term.arrayOfJson_listToJson

theorem isWritable_toJson (f : Filter) : f.toJson.IsWritable :=
  Json.isWritable_array (Term.isWritable_of_mem_listToJson f)

/-- A filter needs two levels of a document for each level of parentheses. -/
theorem nesting_toJson_le_iff {f : Filter} {k : Nat} :
    f.toJson.nesting ≤ 2 * k + 2 ↔ f.nesting ≤ k := by
  have hterms := Term.nesting_listToJson f
  rw [toJson, Json.nesting, nesting]
  omega

end Filter
end UrlFilter
