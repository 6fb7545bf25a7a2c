import UrlFilter.Schema

/-! What the names of clients stand for. A name stands for a column of the schema, and as names are
unique there, the column decides the type. -/
namespace UrlFilter.FilterFields

/-- The column that a client's name stands for. -/
def column? (fields : FilterFields) (search : String) : Option String :=
  (fields.find? search).map Prod.fst

/-- The type of the column that a client's name stands for. -/
def typeOf? (fields : FilterFields) (search : String) : Option FieldType :=
  (fields.find? search).map Prod.snd

variable {fields : FilterFields} {s t : String}

theorem mem_of_find? {entry : String × FieldType} (h : fields.find? s = some entry) :
    entry ∈ fields.entries := by
  unfold find? at h
  split at h
  · rename_i found hfound
    cases h
    exact List.mem_of_find?_eq_some hfound
  · exact List.mem_of_find?_eq_some h

/-- A column has one type. -/
theorem eq_of_mem_of_fst_eq {a b : String × FieldType} (ha : a ∈ fields.entries)
    (hb : b ∈ fields.entries) (h : a.1 = b.1) : a = b := by
  have hordered := fields.ordered
  generalize fields.entries = entries at ha hb hordered
  induction entries with
  | nil => simp at ha
  | cons first rest ih =>
    obtain ⟨hfirst, hrest⟩ := List.pairwise_cons.mp hordered
    have hne {e : String × FieldType} (he : e ∈ rest) : first.1 ≠ e.1 :=
      fun heq => String.lt_irrefl _ (heq ▸ hfirst e he)
    rcases List.mem_cons.mp ha with haf | har
    · rcases List.mem_cons.mp hb with hbf | hbr
      · exact haf.trans hbf.symm
      · exact absurd (haf ▸ h) (hne hbr)
    · rcases List.mem_cons.mp hb with hbf | hbr
      · exact absurd (hbf ▸ h.symm) (hne har)
      · exact ih har hbr hrest

/-- Names that stand for one column stand for one type, too. -/
theorem find?_eq_of_column? (h : fields.column? s = fields.column? t) :
    fields.find? s = fields.find? t := by
  unfold column? at h
  cases hs : fields.find? s with
  | none =>
    rw [hs, Option.map_none, eq_comm, Option.map_eq_none_iff] at h
    exact h.symm
  | some a =>
    rw [hs, Option.map_some, eq_comm, Option.map_eq_some_iff] at h
    obtain ⟨b, hb, heq⟩ := h
    rw [hb, eq_of_mem_of_fst_eq (mem_of_find? hb) (mem_of_find? hs) heq]

end UrlFilter.FilterFields
