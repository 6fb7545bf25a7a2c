import UrlFilter.Proofs.Filter.Document
import UrlFilter.Proofs.Query.Json
import UrlFilter.Proofs.Schema.Json
import UrlFilter.Proofs.Text.ByteOrder

/-! Decoding as normalisation. A value may be written in many ways, and what decodes a text and
encodes the value writes it in the one way that is decoded as the value again. For this the written
document must not be nested more deeply than decoders read; `StaysWithin` says so of what was
decoded. The main statement is `Json.decoding_normalises`. -/
namespace UrlFilter
namespace Json

variable {α σ : Type}

/-- Whether the text is one of the two written forms of the document. -/
def IsWrittenAs (v : Json) (s : String) : Prop :=
  s = v.compact ∨ s = v.pretty

/-- The text with what it encodes written anew. -/
def rewrite? (encode : α → Json) (decode : Nat → Json → Except DecodeError α)
    (form : Json → String) (s : String) : Option String :=
  (decodeText (decode maxNesting) s).toOption.map fun a => form (encode a)

/-- Whether what a text encodes is decoded from what is written for it, and writing it anew changes
nothing. -/
structure Normalises (encode : α → Json) (decode : Nat → Json → Except DecodeError α) : Prop where
  decoded : ∀ s a t, decodeText (decode maxNesting) s = .ok a → (encode a).IsWrittenAs t →
    decodeText (decode maxNesting) t = .ok a
  idempotent : ∀ form : Json → String, (∀ v : Json, v.IsWrittenAs (form v)) → ∀ s t,
    rewrite? encode decode form s = some t → rewrite? encode decode form t = some t

theorem read_of_isWrittenAs {v : Json} {s : String} (hv : v.IsWritable) (h : v.IsWrittenAs s) :
    read s = .whole v := by
  rcases h with rfl | rfl
  · exact read_compact hv
  · exact read_pretty hv

variable {encode : α → Json} {decode : Nat → Json → Except DecodeError α}

theorem RoundTrips.normalises (h : RoundTrips encode decode)
    (hwritable : ∀ a, (encode a).IsWritable)
    (hnesting : ∀ v a, decode maxNesting v = .ok a → (encode a).nesting ≤ maxNesting) :
    Normalises encode decode := by
  have hdecoded : ∀ s a t, decodeText (decode maxNesting) s = .ok a → (encode a).IsWrittenAs t →
      decodeText (decode maxNesting) t = .ok a := by
    intro s a t hs ht
    obtain ⟨v, -, hv⟩ := decodeText_eq_ok_iff.mp hs
    have hagain : decode maxNesting (encode a) = .ok a := by
      rw [h, within_of_le (hnesting v a hv)]
    exact decodeText_eq_ok_iff.mpr ⟨_, read_of_isWrittenAs (hwritable a) ht, hagain⟩
  refine ⟨hdecoded, fun form hform s t h => ?_⟩
  obtain ⟨a, ha, rfl⟩ := Option.map_eq_some_iff.mp h
  have hagain := hdecoded s a _ (eq_ok_of_toOption ha) (hform (encode a))
  rw [rewrite?, hagain]
  rfl

/-! ## What is decoded stays within the room -/

/-- Whether what is decoded can be written with no deeper nesting than may be read. -/
def StaysWithin (encode : α → Json) (decode : Nat → Json → Except DecodeError α) : Prop :=
  ∀ room v a, decode room v = .ok a → (encode a).nesting ≤ room

theorem exists_of_mem_mapM {f : Json → Except DecodeError α} {items : List Json} {as : List α}
    (h : items.mapM f = .ok as) : ∀ a ∈ as, ∃ v, f v = .ok a := by
  induction items generalizing as with
  | nil =>
    cases h
    exact nofun
  | cons v items ih =>
    rw [List.mapM_cons] at h
    cases hv : f v with
    | error e =>
      rw [hv] at h
      cases h
    | ok a =>
      cases hrest : items.mapM f with
      | error e =>
        rw [hv, hrest] at h
        cases h
      | ok as' =>
        rw [hv, hrest] at h
        cases h
        exact List.forall_mem_cons.mpr ⟨⟨v, hv⟩, ih hrest⟩

theorem StaysWithin.array (h : StaysWithin encode decode) :
    StaysWithin (fun as => array (as.map encode)) fun room => decodeArray room decode := by
  intro room v as has
  cases v with
  | null | bool | number | string | object => cases has
  | array items =>
    cases room with
    | zero => cases has
    | succ room =>
      rw [nesting_array_le_iff, List.forall_mem_map]
      intro a ha
      obtain ⟨v, hv⟩ := exists_of_mem_mapM has a ha
      exact h room v a hv

section Record

variable {put : String → Json → σ → Except DecodeError σ} {P : σ → Prop} {record record' : σ}

theorem of_decodeMembers
    (hput : ∀ name v record record', P record → put name v record = .ok record' → P record')
    {members : List (Option String × Json)} (hrecord : P record)
    (h : decodeMembers put members record = .ok record') : P record' := by
  induction members generalizing record with
  | nil =>
    cases h
    exact hrecord
  | cons m members ih =>
    obtain ⟨name?, v⟩ := m
    cases name? with
    | none => cases h
    | some name =>
      rw [decodeMembers] at h
      split at h
      · cases h
      · rename_i next hnext
        exact ih (hput name v record next hrecord hnext) h

theorem of_decodePlaces
    (hput : ∀ name v record record', P record → put name v record = .ok record' → P record')
    {names : List String} {items : List Json} (hrecord : P record)
    (h : decodePlaces put names items record = .ok record') : P record' := by
  induction items generalizing names record with
  | nil =>
    rw [decodePlaces] at h
    cases h
    exact hrecord
  | cons v items ih =>
    cases names with
    | nil => cases h
    | cons name names =>
      rw [decodePlaces] at h
      split at h
      · cases h
      · rename_i next hnext
        exact ih (hput name v record next hrecord hnext) h

end Record

/-- What holds of a record without parts, and is preserved by each part that is read, holds of a
record that is decoded. To decode it at all something must be allowed to open. -/
theorem of_decodeRecord {room : Nat} {names : List String}
    {put : Nat → String → Json → σ → Except DecodeError σ} {empty record : σ} {v : Json}
    {P : Nat → σ → Prop} (h : decodeRecord room names put empty v = .ok record)
    (hempty : ∀ room, P room empty)
    (hput : ∀ room name v record record', P room record → put room name v record = .ok record' →
      P room record') : ∃ room', room = room' + 1 ∧ P room' record := by
  cases v with
  | null | bool | number | string => cases h
  | array items =>
    cases room with
    | zero => cases h
    | succ room => exact ⟨room, rfl, of_decodePlaces (hput room) (hempty room) h⟩
  | object members =>
    cases room with
    | zero => cases h
    | succ room => exact ⟨room, rfl, of_decodeMembers (hput room) (hempty room) h⟩

theorem exists_of_map {result : Except DecodeError α} {f : α → σ} {b : σ}
    (h : result.map f = .ok b) : ∃ a, result = .ok a ∧ f a = b := by
  cases result with
  | error e => cases h
  | ok a => exact ⟨a, rfl, Except.ok.inj h⟩

theorem exists_of_map_decodeOnce {part : Option α} {value : Except DecodeError α}
    {f : Option α → σ} {record : σ} (h : (decodeOnce part value).map f = .ok record) :
    ∃ a, value = .ok a ∧ f (some a) = record := by
  cases part with
  | some a => cases h
  | none =>
    cases value with
    | error e => cases h
    | ok a =>
      cases h
      exact ⟨a, rfl, rfl⟩

end Json

open Json (StaysWithin)

theorem Term.staysWithin : StaysWithin toJson ofJson := by
  intro room v t h
  obtain ⟨hnesting, -, hencoded⟩ := (ofJson_eq_ok_iff room v t).mp h
  exact Nat.le_trans (nesting_toJson_le hencoded) hnesting

theorem Filter.staysWithin : StaysWithin toJson ofJson := by
  intro room v f h
  obtain ⟨hnesting, -, items, rfl, hitems⟩ := (Term.arrayOfJson_eq_ok_iff room v f).mp h
  have hterms := Term.nestingOfItems_listToJson_le hitems
  rw [Json.nesting] at hnesting
  rw [toJson, Json.nesting]
  omega

theorem SortKey.staysWithin : StaysWithin toJson ofJson := by
  intro room v k h
  unfold ofJson at h
  split at h
  · cases h
  · rename_i parts hparts
    obtain ⟨room, rfl, -⟩ := Json.of_decodeRecord (P := fun _ _ => True) hparts
      (fun _ => trivial) fun _ _ _ _ _ _ _ => trivial
    rw [toJson, Json.nesting_record_le_iff]
    simp [Json.nesting]
  · cases h

theorem OptionSet.staysWithin : StaysWithin toJson ofJson := by
  intro room v s h
  obtain ⟨names, hnames, -⟩ := Json.exists_of_map h
  have htexts : StaysWithin Json.text fun _ => Json.decodeString :=
    fun room _ _ _ => Nat.zero_le room
  have harray := htexts.array room v names hnames
  cases room with
  | zero => cases Nat.le_zero.mp harray
  | succ room =>
    rw [toJson, Json.nesting_array_le_iff, List.forall_mem_map]
    exact fun _ _ => Nat.zero_le room

namespace Query

/-- Whether the parts that are read can be written within the room. -/
structure Parts.FitIn (room : Nat) (parts : Parts) : Prop where
  filter : ∀ f, parts.filter = some f → f.toJson.nesting ≤ room
  sort : ∀ keys, parts.sort = some keys → (Json.array (keys.map SortKey.toJson)).nesting ≤ room
  options : ∀ options, parts.options = some options → options.toJson.nesting ≤ room

theorem Parts.FitIn.put {room : Nat} {name : String} {v : Json} {parts parts' : Parts}
    (h : parts.FitIn room) (hput : Parts.put room name v parts = .ok parts') :
    parts'.FitIn room := by
  unfold Parts.put at hput
  split at hput
  · obtain ⟨f, hf, rfl⟩ := Json.exists_of_map_decodeOnce hput
    refine ⟨?_, h.sort, h.options⟩
    rintro _ ⟨⟩
    exact Filter.staysWithin room v f hf
  · obtain ⟨keys, hkeys, rfl⟩ := Json.exists_of_map_decodeOnce hput
    refine ⟨h.filter, ?_, h.options⟩
    rintro _ ⟨⟩
    exact SortKey.staysWithin.array room v keys hkeys
  · obtain ⟨options, hoptions, rfl⟩ := Json.exists_of_map_decodeOnce hput
    refine ⟨h.filter, h.sort, ?_⟩
    rintro _ ⟨⟩
    exact OptionSet.staysWithin room v options hoptions
  · obtain ⟨limit, -, rfl⟩ := Json.exists_of_map_decodeOnce hput
    exact ⟨h.filter, h.sort, h.options⟩
  · obtain ⟨offset, -, rfl⟩ := Json.exists_of_map_decodeOnce hput
    exact ⟨h.filter, h.sort, h.options⟩
  · cases hput
    exact h

theorem staysWithin : StaysWithin toJson ofJson := by
  intro room v q h
  unfold ofJson at h
  split at h
  · cases h
  · rename_i filter sort options limit offset hparts
    cases h
    obtain ⟨room, rfl, hfit⟩ := Json.of_decodeRecord hparts
      (fun room => (⟨nofun, nofun, nofun⟩ : Parts.FitIn room {})) fun _ _ _ _ _ => Parts.FitIn.put
    exact nesting_toJson_le_iff.mpr ⟨hfit.filter _ rfl, hfit.sort _ rfl, hfit.options _ rfl⟩
  · cases h

end Query

theorem Schema.nesting_toJson_le_maxNesting (s : Schema) : s.toJson.nesting ≤ Json.maxNesting :=
  nesting_toJson_le_iff.mpr (by decide)

/-! ## Names of operators and connectives -/

theorem Operator.roundTrips : Json.RoundTrips toJson fun _ => ofJson := by
  intro room op
  rw [Json.within_of_le (Nat.zero_le room)]
  simp [toJson, ofJson]

theorem Connective.roundTrips : Json.RoundTrips toJson fun _ => ofJson := by
  intro room link
  rw [Json.within_of_le (Nat.zero_le room)]
  exact ofJson_eq_ok_iff.mpr rfl

namespace Json

/-- Whether the names are in strictly increasing order of their bytes. -/
def AreIncreasing (names : List String) : Prop :=
  names.Pairwise fun a b => Text.encode a.toList < Text.encode b.toList

theorem areIncreasing_of_pairwise {names : List String} (h : names.Pairwise (· < ·)) :
    AreIncreasing names :=
  h.imp Text.encode_lt_encode_iff.mpr

/-- Whatever text was decoded, the text that is written for the value is decoded as the value again,
so that it is written anew as it is. The names of options and of filterable fields stand in it in
increasing order of their bytes, each of them once. -/
theorem decoding_normalises :
    (Normalises Query.toJson Query.ofJson ∧ Normalises Filter.toJson Filter.ofJson ∧
      Normalises Term.toJson Term.ofJson ∧ Normalises SortKey.toJson SortKey.ofJson ∧
      Normalises OptionSet.toJson OptionSet.ofJson ∧ Normalises Schema.toJson Schema.ofJson ∧
      Normalises FieldType.toJson FieldType.ofJson ∧
      Normalises Operator.toJson (fun _ => Operator.ofJson) ∧
      Normalises Connective.toJson fun _ => Connective.ofJson) ∧
    (∀ (options : OptionSet) t, options.toJson.IsWrittenAs t →
      ∃ names, read t = .whole (.array (names.map .text)) ∧ AreIncreasing names) ∧
    (∀ (q : Query) t, q.toJson.IsWrittenAs t → ∃ members names, read t = .whole (.object members) ∧
      named "options" members = [.array (names.map .text)] ∧ AreIncreasing names) ∧
    ∀ (s : Schema) t, s.toJson.IsWrittenAs t → ∃ members fields, read t = .whole (.object members) ∧
      named "filter_fields" members = [.record fields] ∧ AreIncreasing (fields.map Prod.fst) := by
  refine ⟨⟨?_, ?_, ?_, ?_, ?_, ?_, ?_, ?_, ?_⟩, ?_, ?_, ?_⟩
  · exact Query.roundTrips.normalises Query.isWritable_toJson (Query.staysWithin _)
  · exact Filter.roundTrips.normalises Filter.isWritable_toJson (Filter.staysWithin _)
  · exact RoundTrips.normalises Term.ofJson_toJson Term.isWritable_toJson (Term.staysWithin _)
  · exact SortKey.roundTrips.normalises SortKey.isWritable_toJson (SortKey.staysWithin _)
  · exact OptionSet.roundTrips.normalises OptionSet.isWritable_toJson (OptionSet.staysWithin _)
  · exact Schema.roundTrips.normalises Schema.isWritable_toJson fun _ s _ =>
      s.nesting_toJson_le_maxNesting
  · exact FieldType.roundTrips.normalises FieldType.isWritable_toJson fun _ _ _ => Nat.zero_le _
  · exact Operator.roundTrips.normalises (fun op => isWritable_text op.symbol) fun _ _ _ =>
      Nat.zero_le _
  · exact Connective.roundTrips.normalises (fun link => isWritable_text link.name) fun _ _ _ =>
      Nat.zero_le _
  · intro options t ht
    exact ⟨options.names, read_of_isWrittenAs options.isWritable_toJson ht,
      areIncreasing_of_pairwise options.ordered⟩
  · intro q t ht
    exact ⟨_, q.options.names, read_of_isWrittenAs q.isWritable_toJson ht, rfl,
      areIncreasing_of_pairwise q.options.ordered⟩
  · intro s t ht
    refine ⟨_, s.filterFields.entries.map fun entry => (entry.1, entry.2.toJson),
      read_of_isWrittenAs s.isWritable_toJson ht, rfl, ?_⟩
    rw [List.map_map]
    exact areIncreasing_of_pairwise (List.pairwise_map.mpr s.filterFields.ordered)

/-- A schema may be an array, with repeated names and a type that is an object. A query may have its
members in another order and further ones among them, an operator in another spelling, a sort key
that is an array and repeated options. -/
theorem decoding_normalises_alternative :
    let schemaDocument : Json := .array [.record [("b", .text "time"),
      ("a", .record [("time", .null)]), ("b", .text "bool")]]
    let schema : Schema := ⟨.ofList [("a", .time), ("b", .bool)], {}⟩
    let queryDocument : Json := .record [("offset", .natural 0), ("limit", .natural 5),
      ("options", .array [.text "e", .text "d", .text "e"]), ("note", .null),
      ("sort", .array [.array [.text "c", .bool true]]),
      ("filter", .array [.record [("op", .text "=>"), ("value", .text "1"), ("field", .text "a"),
        ("logic", .text "START")]])]
    let query : Query := {
      filter := [.predicate .start ⟨.greaterEqual, "a", "1"⟩]
      sort := [⟨"c", true⟩]
      options := .ofList ["d", "e"]
      limit := 5 }
    (decodeText (Schema.ofJson maxNesting) schemaDocument.compact = .ok schema ∧
      schema.toJson.IsWrittenAs schema.toJson.pretty ∧
      decodeText (Schema.ofJson maxNesting) schema.toJson.pretty = .ok schema) ∧
    decodeText (Query.ofJson maxNesting) queryDocument.compact = .ok query ∧
      query.toJson.IsWrittenAs query.toJson.compact ∧
      decodeText (Query.ofJson maxNesting) query.toJson.compact = .ok query := by
  intro schemaDocument schema queryDocument query
  obtain ⟨⟨hquery, -, -, -, -, hschema, -⟩, -⟩ := decoding_normalises
  have hnull : Json.null.IsWritable := by
    intro t ht
    obtain rfl := List.mem_singleton.mp ht
    trivial
  constructor
  · have htype : (Json.record [("time", .null)]).IsWritable :=
      isWritable_record (by simpa using hnull)
    have hdocument : schemaDocument.IsWritable := by
      refine isWritable_array ?_
      simp only [List.forall_mem_singleton]
      refine isWritable_record ?_
      simp [isWritable_text, htype]
    have hdecoded : decodeText (Schema.ofJson maxNesting) schemaDocument.compact = .ok schema :=
      (decodeText_written _ hdocument).1.trans rfl
    have hwritten : schema.toJson.IsWrittenAs schema.toJson.pretty := .inr rfl
    exact ⟨hdecoded, hwritten, hschema.decoded _ schema _ hdecoded hwritten⟩
  · have hoptions : (Json.array [.text "e", .text "d", .text "e"]).IsWritable :=
      isWritable_array (by simp [isWritable_text])
    have hkey : (Json.array [.text "c", .bool true]).IsWritable :=
      isWritable_array (by simp [isWritable_text, isWritable_bool])
    have hterm : (Json.record [("op", .text "=>"), ("value", .text "1"), ("field", .text "a"),
        ("logic", .text "START")]).IsWritable :=
      isWritable_record (by simp [isWritable_text])
    have hdocument : queryDocument.IsWritable := by
      refine isWritable_record ?_
      simp [isWritable_natural, hnull, hoptions, isWritable_array, hkey, hterm]
    have hdecoded : decodeText (Query.ofJson maxNesting) queryDocument.compact = .ok query :=
      (decodeText_written _ hdocument).1.trans rfl
    have hwritten : query.toJson.IsWrittenAs query.toJson.compact := .inl rfl
    exact ⟨hdecoded, hwritten, hquery.decoded _ query _ hdecoded hwritten⟩

end Json
end UrlFilter
