import UrlFilter.Proofs.Filter.Json
import UrlFilter.Proofs.Query.Shape
import UrlFilter.Query.Json

/-! Queries written as JSON and decoded again. The main statement is `Query.decode_written`: both
written forms give the query back if its parentheses are nested 62 levels deep or less, and
neither does beyond that. -/
namespace UrlFilter

/-! ## Sort keys and options -/

namespace SortKey

theorem roundTrips : Json.RoundTrips toJson ofJson := by
  intro room k
  cases room with
  | zero => rfl
  | succ room =>
    rw [Json.within_of_le (by simp [toJson, Json.nesting_record_le_iff, Json.nesting])]
    simp [toJson, Json.record, ofJson, Json.decodeRecord, Json.decodeMembers, Parts.put,
      Json.decodeOnce, Json.decodeString, Json.decodeBool, Except.map]

theorem isWritable_toJson (k : SortKey) : k.toJson.IsWritable := by
  refine Json.isWritable_record ?_
  simp [Json.isWritable_text, Json.isWritable_bool]

end SortKey

namespace OptionSet

theorem roundTrips : Json.RoundTrips toJson ofJson := by
  intro room s
  have hnames : Json.decodeArray room (fun _ => Json.decodeString) s.toJson =
      Json.within room s.toJson s.names := Json.roundTrips_text.array room s.names
  rw [ofJson, hnames, Json.within, Json.within]
  split
  · rw [Except.map, ofList_names]
  · rfl

theorem isWritable_toJson (s : OptionSet) : s.toJson.IsWritable := by
  refine Json.isWritable_array ?_
  simp [Json.isWritable_text]

end OptionSet

namespace Query

theorem isWritable_toJson (q : Query) : q.toJson.IsWritable := by
  have hsort : (Json.array (q.sort.map SortKey.toJson)).IsWritable := by
    refine Json.isWritable_array ?_
    simp [SortKey.isWritable_toJson]
  refine Json.isWritable_record ?_
  simp [hsort, q.filter.isWritable_toJson, q.options.isWritable_toJson, Json.isWritable_natural]

/-- The three members of a query that hold arrays. -/
theorem nesting_toJson_le_iff {q : Query} {n : Nat} :
    q.toJson.nesting ≤ n + 1 ↔ q.filter.toJson.nesting ≤ n ∧
      (Json.array (q.sort.map SortKey.toJson)).nesting ≤ n ∧ q.options.toJson.nesting ≤ n := by
  simp [toJson, Json.nesting_record_le_iff, Json.nesting]

theorem roundTrips : Json.RoundTrips toJson ofJson := by
  intro room q
  cases room with
  | zero => rfl
  | succ room =>
    have hfilter := Filter.roundTrips room q.filter
    have hsort := SortKey.roundTrips.array room q.sort
    have hoptions := OptionSet.roundTrips room q.options
    have hlimit := Json.roundTrips_count room q.limit
    have hoffset := Json.roundTrips_count room q.offset
    rw [Json.within_of_le (Nat.zero_le room)] at hlimit hoffset
    simp only [Json.within, nesting_toJson_le_iff] at hfilter hsort hoptions ⊢
    simp only [toJson, Json.record, List.map_cons, ofJson, Json.decodeRecord, Json.decodeMembers,
      Parts.put, Json.decodeOnce, hfilter]
    -- the members are decoded in their order, and the first that is too deep ends it
    by_cases hf : q.filter.toJson.nesting ≤ room
    · by_cases hs : (Json.array (q.sort.map SortKey.toJson)).nesting ≤ room
      · by_cases ho : q.options.toJson.nesting ≤ room
        · simp [Except.map, Json.decodeMembers, hsort, hoptions, hlimit, hoffset, hf, hs, ho]
        · simp [Except.map, hsort, hoptions, hf, hs, ho]
      · simp [Except.map, hsort, hf, hs]
    · simp [Except.map, hf]

/-- Only the filter can nest a query deeply. -/
theorem nesting_toJson_le_iff_filter {q : Query} {k : Nat} :
    q.toJson.nesting ≤ 2 * k + 3 ↔ q.filter.nesting ≤ k := by
  have hsort : (Json.array (q.sort.map SortKey.toJson)).nesting ≤ 2 * k + 2 := by
    refine Json.nesting_array_le_iff.mpr ?_
    simp [SortKey.toJson, Json.nesting_record_le_iff, Json.nesting]
  have hoptions : q.options.toJson.nesting ≤ 2 * k + 2 := by
    refine Json.nesting_array_le_iff.mpr ?_
    simp [Json.nesting]
  rw [nesting_toJson_le_iff, Filter.nesting_toJson_le_iff]
  exact ⟨fun h => h.1, fun h => ⟨h, hsort, hoptions⟩⟩

/-- Both written forms of a query are decoded as the query if its parentheses are nested 62
levels deep or less, and as nothing otherwise. So every query that was parsed within this limit
comes back. -/
theorem decode_written (q : Query) :
    Json.decodeText (ofJson Json.maxNesting) q.toJson.compact =
      (if q.filter.nesting ≤ 62 then .ok q else .error .malformed) ∧
    Json.decodeText (ofJson Json.maxNesting) q.toJson.pretty =
      (if q.filter.nesting ≤ 62 then .ok q else .error .malformed) ∧
    ∀ s maxDepth, maxDepth ≤ 62 → parse s maxDepth = .ok q →
      Json.decodeText (ofJson Json.maxNesting) q.toJson.compact = .ok q ∧
      Json.decodeText (ofJson Json.maxNesting) q.toJson.pretty = .ok q := by
  have hlimit : q.toJson.nesting ≤ Json.maxNesting ↔ q.filter.nesting ≤ 62 :=
    nesting_toJson_le_iff_filter (k := 62)
  have hdecode : ofJson Json.maxNesting q.toJson =
      if q.filter.nesting ≤ 62 then .ok q else .error .malformed := by
    rw [roundTrips, Json.within]
    simp only [hlimit]
  obtain ⟨hcompact, hpretty⟩ :=
    Json.decodeText_written (ofJson Json.maxNesting) (isWritable_toJson q)
  rw [hcompact, hpretty, hdecode]
  refine ⟨rfl, rfl, fun s maxDepth hdepth h => ?_⟩
  have hnesting : q.filter.nesting ≤ 62 :=
    Nat.le_trans (filter_isCanonical h).nesting_le hdepth
  rw [if_pos hnesting]
  exact ⟨rfl, rfl⟩

/-- Quotes, line breaks and characters beyond the first plane come back from their escapes. -/
theorem decode_written_escaped :
    ∃ q, 32 ≤ 62 ∧ parse "a=\"\n😀|(b=2&c=3)&limit=7" 32 = .ok q ∧
      Json.decodeText (ofJson Json.maxNesting) q.toJson.compact = .ok q ∧
      Json.decodeText (ofJson Json.maxNesting) q.toJson.pretty = .ok q := by
  have h : parse "a=\"\n😀|(b=2&c=3)&limit=7" 32 = .ok {
      limit := 7
      filter := [.predicate .start ⟨.equal, "a", "\"\n😀"⟩,
        .group .or [.predicate .start ⟨.equal, "b", "2"⟩, .predicate .and ⟨.equal, "c", "3"⟩]] } :=
    eq_ok_of_toOption (by decide +kernel)
  exact ⟨_, by decide, h, (decode_written _).2.2 _ 32 (by decide) h⟩

end Query
end UrlFilter
