import UrlFilter.Proofs.Schema.Resolution
import UrlFilter.Proofs.Text.ByteOrder
import UrlFilter.Schema.Json

/-! How names are looked up. Filterable fields are a map from names to types, in which the type that
was given last for a name counts, however the fields came about; a name that is no key stands for
the first key in the order of bytes that qualifies it. Sortable columns are a list, and the first
column that qualifies a name is the first that was declared. `names_resolve` says all of it. -/
namespace UrlFilter

/-- Whether the column is the name with a qualifier and a dot before it. -/
def Qualifies (column name : String) : Prop :=
  ∃ qualifier, column = qualifier ++ "." ++ name

theorem isQualified_iff {column name : String} :
    isQualified column name = true ↔ Qualifies column name := by
  rw [isQualified, List.isSuffixOf_iff_suffix]
  constructor
  · rintro ⟨qualifier, h⟩
    refine ⟨String.ofList qualifier, String.toList_inj.mp ?_⟩
    rw [← h]
    simp
  · rintro ⟨qualifier, rfl⟩
    exact ⟨qualifier.toList, by simp⟩

namespace FilterFields

/-- The type of the field with exactly this name. -/
def type? (fields : FilterFields) (name : String) : Option FieldType :=
  (fields.entries.find? (·.1 == name)).map Prod.snd

/-- The type that is given last for a name. -/
def lastType? (name : String) (given : List (String × FieldType)) : Option FieldType :=
  (given.reverse.find? (·.1 == name)).map Prod.snd

/-- The fields that the members of an object give, as far as they can be read. -/
def givenBy (room : Nat) (members : List (Option String × Json)) : List (String × FieldType) :=
  members.filterMap fun m =>
    match m.1, FieldType.ofJson room m.2 with
    | some name, .ok type => some (name, type)
    | _, _ => none

/-- Whether the fields came about by giving these names and types, one after another: by putting in
one field at a time, from a list, or from a document. -/
inductive ComeFrom : List (String × FieldType) → FilterFields → Prop
  | empty : ComeFrom [] ∅
  | insert {given : List (String × FieldType)} {fields : FilterFields} (name : String)
      (type : FieldType) (h : ComeFrom given fields) :
      ComeFrom (given ++ [(name, type)]) (fields.insert name type)
  | ofList (given : List (String × FieldType)) : ComeFrom given (ofList given)
  | ofJson {room : Nat} {members : List (Option String × Json)} {fields : FilterFields}
      (h : FilterFields.ofJson (room + 1) (.object members) = .ok fields) :
      ComeFrom (givenBy room members) fields

variable {fields fields' : FilterFields} {given : List (String × FieldType)} {name : String}

/-! ## The map from names to types -/

theorem lastType?_append (xs ys : List (String × FieldType)) :
    lastType? name (xs ++ ys) = (lastType? name ys).or (lastType? name xs) := by
  rw [lastType?, List.reverse_append, List.find?_append, Option.map_or]
  rfl

theorem lastType?_singleton (entry : String × FieldType) :
    lastType? name [entry] = if entry.1 = name then some entry.2 else none := by
  rw [lastType?, List.reverse_singleton, List.find?_singleton]
  by_cases h : entry.1 = name
  · simp [h]
  · simp [h]

theorem find?_cons_name (entry : String × FieldType) (rest : List (String × FieldType)) :
    (entry :: rest).find? (·.1 == name) =
      if entry.1 = name then some entry else rest.find? (·.1 == name) := by
  by_cases h : entry.1 = name
  · rw [if_pos h]
    exact List.find?_cons_of_pos (beq_iff_eq.mpr h)
  · rw [if_neg h]
    exact List.find?_cons_of_neg fun heq => h (beq_iff_eq.mp heq)

theorem find?_insertByKey (entry : String × FieldType) (entries : List (String × FieldType)) :
    (insertByKey Prod.fst entry entries).find? (·.1 == name) =
      if entry.1 = name then some entry else entries.find? (·.1 == name) := by
  induction entries with
  | nil =>
    rw [insertByKey, find?_cons_name]
  | cons other rest ih =>
    rw [insertByKey]
    split
    · rw [find?_cons_name]
    · split
      · rename_i heq
        rw [find?_cons_name, find?_cons_name other, ← heq]
        split
        · rfl
        · rfl
      · rename_i hne
        rw [find?_cons_name, find?_cons_name other, ih]
        by_cases h : other.1 = name
        · rw [if_pos h, if_pos h, if_neg fun heq => hne (heq.trans h.symm)]
        · rw [if_neg h, if_neg h]

theorem type?_insert (fields : FilterFields) (other : String) (type : FieldType) :
    (fields.insert other type).type? name =
      if other = name then some type else fields.type? name := by
  rw [type?, insert, find?_insertByKey]
  split
  · rfl
  · rfl

theorem type?_foldl_insert (fields : FilterFields) (given : List (String × FieldType)) :
    (given.foldl (fun fields entry => fields.insert entry.1 entry.2) fields).type? name =
      (lastType? name given).or (fields.type? name) := by
  induction given generalizing fields with
  | nil => rfl
  | cons entry rest ih =>
    rw [List.foldl_cons, ih, type?_insert, ← List.singleton_append, lastType?_append,
      lastType?_singleton, Option.or_assoc]
    split
    · rfl
    · rfl

/-- A document gives its members one after another. -/
theorem eq_foldl_of_decodeMembers {room : Nat} {members : List (Option String × Json)}
    (h : Json.decodeMembers
      (fun name v fields => (FieldType.ofJson room v).map (fields.insert name)) members fields =
        .ok fields') :
    fields' = (givenBy room members).foldl (fun fields entry => fields.insert entry.1 entry.2)
      fields := by
  induction members generalizing fields with
  | nil =>
    cases h
    rfl
  | cons m rest ih =>
    obtain ⟨name?, v⟩ := m
    cases name? with
    | none => cases h
    | some name =>
      rw [Json.decodeMembers] at h
      cases htype : FieldType.ofJson room v with
      | error e =>
        rw [htype] at h
        cases h
      | ok type =>
        rw [htype] at h
        have hgiven : givenBy room ((some name, v) :: rest) =
            (name, type) :: givenBy room rest := by
          simp [givenBy, htype]
        rw [hgiven, List.foldl_cons]
        exact ih h

/-- Of several types of one name the one that is given last counts. -/
theorem type?_of_comeFrom (h : ComeFrom given fields) :
    fields.type? name = lastType? name given := by
  induction h with
  | empty => rfl
  | insert other type _ ih =>
    rw [type?_insert, lastType?_append, lastType?_singleton, ih]
    split
    · rfl
    · rfl
  | ofList given =>
    rw [FilterFields.ofList, type?_foldl_insert]
    exact Option.or_none
  | ofJson h =>
    rw [eq_foldl_of_decodeMembers h, type?_foldl_insert]
    exact Option.or_none

theorem type?_eq_some_iff {type : FieldType} :
    fields.type? name = some type ↔ (name, type) ∈ fields.entries := by
  constructor
  · intro h
    obtain ⟨entry, hfind, rfl⟩ := Option.map_eq_some_iff.mp h
    obtain rfl : entry.1 = name := by simpa using List.find?_some hfind
    exact List.mem_of_find?_eq_some hfind
  · intro h
    cases hfind : fields.entries.find? (·.1 == name) with
    | none => simpa using List.find?_eq_none.mp hfind _ h
    | some entry =>
      have hname : entry.1 = name := by simpa using List.find?_some hfind
      rw [type?, hfind, eq_of_mem_of_fst_eq (List.mem_of_find?_eq_some hfind) h hname]
      rfl

theorem type?_ne_none_iff : fields.type? name ≠ none ↔ ∃ type, (name, type) ∈ fields.entries := by
  rw [Option.ne_none_iff_exists']
  exact exists_congr fun type => type?_eq_some_iff

/-! ## The field that a name stands for -/

/-- Of the fields that pass a test, the first in the order of names is found. -/
theorem find?_entries_eq_some_iff {p : String × FieldType → Bool} {entry : String × FieldType} :
    fields.entries.find? p = some entry ↔ entry ∈ fields.entries ∧ p entry = true ∧
      ∀ other ∈ fields.entries, p other = true → other = entry ∨ entry.1 < other.1 := by
  have hordered := fields.ordered
  generalize fields.entries = entries at hordered
  rw [List.find?_eq_some_iff_append]
  constructor
  · rintro ⟨hp, before, after, rfl, hbefore⟩
    refine ⟨by simp, hp, fun other hother hpass => ?_⟩
    obtain ⟨-, hafter, -⟩ := List.pairwise_append.mp hordered
    rcases List.mem_append.mp hother with hother | hother
    · have hfail := hbefore other hother
      rw [hpass] at hfail
      cases hfail
    · rcases List.mem_cons.mp hother with hother | hother
      · exact .inl hother
      · exact .inr ((List.pairwise_cons.mp hafter).1 other hother)
  · rintro ⟨hmem, hp, hfirst⟩
    obtain ⟨before, after, rfl⟩ := List.append_of_mem hmem
    refine ⟨hp, before, after, rfl, fun other hother => ?_⟩
    have hlt := (List.pairwise_append.mp hordered).2.2 other hother entry (by simp)
    -- a field before it that passes could be neither it nor behind it
    rw [Bool.not_eq_true', Bool.eq_false_iff]
    intro hpass
    rcases hfirst other (by simp [hother]) hpass with rfl | hgt
    · exact String.lt_irrefl _ hlt
    · exact String.lt_asymm hlt hgt

theorem find?_of_type?_eq_some {type : FieldType} (h : fields.type? name = some type) :
    fields.find? name = some (name, type) := by
  obtain ⟨entry, hfind, rfl⟩ := Option.map_eq_some_iff.mp h
  obtain rfl : entry.1 = name := by simpa using List.find?_some hfind
  rw [find?, hfind]

theorem find?_of_type?_eq_none (h : fields.type? name = none) :
    fields.find? name = fields.entries.find? fun entry => isQualified entry.1 name := by
  rw [find?, Option.map_eq_none_iff.mp h]

theorem find?_eq_some_iff_of_type?_eq_none (h : fields.type? name = none) {column : String}
    {type : FieldType} :
    fields.find? name = some (column, type) ↔
      fields.type? column = some type ∧ Qualifies column name ∧
        ∀ other, fields.type? other ≠ none → Qualifies other name →
          other = column ∨ Text.encode column.toList < Text.encode other.toList := by
  rw [find?_of_type?_eq_none h, find?_entries_eq_some_iff, type?_eq_some_iff, isQualified_iff]
  refine and_congr_right fun hcolumn => and_congr_right fun _ => ?_
  constructor
  · intro hfirst other hother hqualifies
    obtain ⟨type', hmem⟩ := type?_ne_none_iff.mp hother
    rw [Text.encode_lt_encode_iff]
    exact (hfirst _ hmem (isQualified_iff.mpr hqualifies)).imp_left (congrArg Prod.fst)
  · intro hfirst other hmem hqualifies
    have hother := hfirst other.1 (type?_ne_none_iff.mpr ⟨other.2, hmem⟩)
      (isQualified_iff.mp hqualifies)
    rw [Text.encode_lt_encode_iff] at hother
    exact hother.imp_left fun heq => eq_of_mem_of_fst_eq hmem hcolumn heq

theorem find?_eq_none_iff :
    fields.find? name = none ↔
      ∀ column, fields.type? column ≠ none → column ≠ name ∧ ¬ Qualifies column name := by
  constructor
  · intro h column hcolumn
    cases htype : fields.type? name with
    | some type =>
      rw [find?_of_type?_eq_some htype] at h
      cases h
    | none =>
      rw [find?_of_type?_eq_none htype, List.find?_eq_none] at h
      obtain ⟨type, hmem⟩ := type?_ne_none_iff.mp hcolumn
      refine ⟨fun heq => hcolumn (heq ▸ htype), fun hqualifies => ?_⟩
      exact h _ hmem (isQualified_iff.mpr hqualifies)
  · intro h
    have htype : fields.type? name = none := by
      cases htype : fields.type? name with
      | none => rfl
      | some type => exact absurd rfl (h name (by simp [htype])).1
    rw [find?_of_type?_eq_none htype, List.find?_eq_none]
    intro entry hmem hqualified
    exact (h entry.1 (type?_ne_none_iff.mpr ⟨entry.2, hmem⟩)).2 (isQualified_iff.mp hqualified)

/-- What a name stands for depends on the map from names to types and on nothing else. -/
theorem find?_congr (h : ∀ column, fields'.type? column = fields.type? column) (name : String) :
    fields'.find? name = fields.find? name := by
  cases htype : fields.type? name with
  | some type =>
    rw [find?_of_type?_eq_some htype, find?_of_type?_eq_some ((h name).trans htype)]
  | none =>
    refine Option.ext fun entry => ?_
    rw [find?_eq_some_iff_of_type?_eq_none htype,
      find?_eq_some_iff_of_type?_eq_none ((h name).trans htype)]
    simp only [h]

theorem find?_of_find?_eq_some {column : String} {type : FieldType}
    (h : fields.find? name = some (column, type)) : fields.find? column = some (column, type) :=
  find?_of_type?_eq_some (type?_eq_some_iff.mpr (mem_of_find? h))

end FilterFields

/-! ## Sortable columns -/

namespace SortFields

variable {fields : SortFields} {name column : String}

theorem find?_of_mem (h : name ∈ fields.columns) : fields.find? name = some name := by
  cases hfind : fields.columns.find? (· == name) with
  | none => simpa using List.find?_eq_none.mp hfind name h
  | some column =>
    obtain rfl : column = name := by simpa using List.find?_some hfind
    rw [find?, hfind]

theorem find?_of_not_mem (h : name ∉ fields.columns) :
    fields.find? name = fields.columns.find? (isQualified · name) := by
  have hnone : fields.columns.find? (· == name) = none := by
    rw [List.find?_eq_none]
    intro column hcolumn heq
    exact h ((beq_iff_eq.mp heq) ▸ hcolumn)
  rw [find?, hnone]

theorem find?_eq_some_iff_of_not_mem (h : name ∉ fields.columns) :
    fields.find? name = some column ↔ ∃ before after, fields.columns = before ++ column :: after ∧
      Qualifies column name ∧ ∀ other ∈ before, ¬ Qualifies other name := by
  rw [find?_of_not_mem h, List.find?_eq_some_iff_append]
  simp only [isQualified_iff, Bool.not_eq_true', Bool.eq_false_iff, ne_eq]
  constructor
  · rintro ⟨hqualifies, before, after, hcolumns, hbefore⟩
    exact ⟨before, after, hcolumns, hqualifies, hbefore⟩
  · rintro ⟨before, after, hcolumns, hqualifies, hbefore⟩
    exact ⟨hqualifies, before, after, hcolumns, hbefore⟩

theorem find?_eq_none_iff :
    fields.find? name = none ↔
      ∀ column ∈ fields.columns, column ≠ name ∧ ¬ Qualifies column name := by
  by_cases h : name ∈ fields.columns
  · rw [find?_of_mem h]
    exact iff_of_false nofun fun hall => (hall name h).1 rfl
  · rw [find?_of_not_mem h, List.find?_eq_none]
    simp only [isQualified_iff]
    refine forall₂_congr fun column hcolumn => (and_iff_right ?_).symm
    rintro rfl
    exact h hcolumn

theorem mem_of_find? (h : fields.find? name = some column) : column ∈ fields.columns := by
  by_cases hmem : name ∈ fields.columns
  · rw [find?_of_mem hmem] at h
    exact Option.some.inj h ▸ hmem
  · rw [find?_of_not_mem hmem] at h
    exact List.mem_of_find?_eq_some h

end SortFields

namespace Schema

open FilterFields (ComeFrom lastType?)

/-- A name stands for the field that it names in full, and else for the first field in the order of
bytes that qualifies it; only the map from names to types counts for this, in which a later type
takes the place of an earlier one. Among sortable columns it stands for the one that it names in
full, and else for the first that was declared among those that qualify it. What a name stands for
stands for itself. -/
theorem names_resolve (fields : FilterFields) (sortable : SortFields) (name : String) :
    (∀ given, ComeFrom given fields → ∀ column, fields.type? column = lastType? column given) ∧
      (∀ type, fields.type? name = some type → fields.find? name = some (name, type)) ∧
      (fields.type? name = none → ∀ column type, fields.find? name = some (column, type) ↔
        fields.type? column = some type ∧ Qualifies column name ∧
          ∀ other, fields.type? other ≠ none → Qualifies other name →
            other = column ∨ Text.encode column.toList < Text.encode other.toList) ∧
      (fields.find? name = none ↔
        ∀ column, fields.type? column ≠ none → column ≠ name ∧ ¬ Qualifies column name) ∧
      (∀ fields' : FilterFields, (∀ column, fields'.type? column = fields.type? column) →
        fields'.find? name = fields.find? name) ∧
      (∀ column type, fields.find? name = some (column, type) →
        fields.find? column = some (column, type)) ∧
      (name ∈ sortable.columns → sortable.find? name = some name) ∧
      (name ∉ sortable.columns → ∀ column, sortable.find? name = some column ↔
        ∃ before after, sortable.columns = before ++ column :: after ∧ Qualifies column name ∧
          ∀ other ∈ before, ¬ Qualifies other name) ∧
      (sortable.find? name = none ↔
        ∀ column ∈ sortable.columns, column ≠ name ∧ ¬ Qualifies column name) ∧
      ∀ column, sortable.find? name = some column → sortable.find? column = some column :=
  ⟨fun _ h _ => FilterFields.type?_of_comeFrom h,
    fun _ h => FilterFields.find?_of_type?_eq_some h,
    fun h _ _ => FilterFields.find?_eq_some_iff_of_type?_eq_none h,
    FilterFields.find?_eq_none_iff,
    fun _ h => FilterFields.find?_congr h name,
    fun _ _ h => FilterFields.find?_of_find?_eq_some h,
    fun h => SortFields.find?_of_mem h,
    fun h _ => SortFields.find?_eq_some_iff_of_not_mem h,
    SortFields.find?_eq_none_iff,
    fun _ h => SortFields.find?_of_mem (SortFields.mem_of_find? h)⟩

/-- A key that a document repeats has the later type, and a name that two keys qualify stands for
the key that is first in the order of bytes. Columns are in the order of their declaration. -/
theorem names_resolve_repeated :
    ∃ fields, FilterFields.ofJson 1 (.object [(some "w.name", .string (some "string")),
        (some "t.name", .string (some "bool")), (some "t.name", .string (some "simple"))]) =
          .ok fields ∧
      fields.type? "t.name" = some .simple ∧ fields.find? "name" = some ("t.name", .simple) ∧
      fields.find? "t.name" = some ("t.name", .simple) ∧
      SortFields.find? ⟨["w.name", "t.name"]⟩ "name" = some "w.name" ∧
      SortFields.find? ⟨["w.name", "t.name"]⟩ "w.name" = some "w.name" := by
  have hread : FilterFields.ofJson 1 (.object [(some "w.name", .string (some "string")),
      (some "t.name", .string (some "bool")), (some "t.name", .string (some "simple"))]) =
        .ok (.ofList [("w.name", .string), ("t.name", .bool), ("t.name", .simple)]) := rfl
  obtain ⟨hlast, -, -, -, -, hagain, -, -, -, hsort⟩ :=
    names_resolve (.ofList [("w.name", .string), ("t.name", .bool), ("t.name", .simple)])
      ⟨["w.name", "t.name"]⟩ "name"
  have hfield : FilterFields.find?
      (.ofList [("w.name", .string), ("t.name", .bool), ("t.name", .simple)]) "name" =
        some ("t.name", .simple) := by decide +kernel
  have hcolumn : SortFields.find? ⟨["w.name", "t.name"]⟩ "name" = some "w.name" := by decide +kernel
  exact ⟨_, hread, (hlast _ (.ofJson hread) "t.name").trans (by decide +kernel), hfield,
    hagain _ _ hfield, hcolumn, hsort _ hcolumn⟩

end Schema
end UrlFilter
