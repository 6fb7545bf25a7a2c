import UrlFilter.KeyOrder

/-! Sets of option names. A set is the strictly increasing list of its names, so two sets with
the same names are equal, however they came about. -/
namespace UrlFilter

/-- A set of names. -/
structure OptionSet where
  names : List String
  ordered : names.Pairwise (· < ·)
  deriving DecidableEq, Repr

namespace OptionSet

/-- The set without names. -/
def empty : OptionSet := ⟨[], .nil⟩

instance : EmptyCollection OptionSet := ⟨empty⟩
instance : Inhabited OptionSet := ⟨empty⟩

/-- Whether the name is in the set. -/
def contains (s : OptionSet) (name : String) : Bool :=
  s.names.contains name

/-- The set with one more name. -/
def insert (s : OptionSet) (name : String) : OptionSet :=
  ⟨insertByKey id name s.names, pairwise_insertByKey s.ordered⟩

/-- The set with the names of a list added. -/
def insertAll (s : OptionSet) (names : List String) : OptionSet :=
  names.foldl insert s

/-- The set of the names of a list. -/
def ofList (names : List String) : OptionSet :=
  empty.insertAll names

/-- The number of names. -/
def size (s : OptionSet) : Nat :=
  s.names.length

/-- Whether there is no name. -/
def isEmpty (s : OptionSet) : Bool :=
  s.names.isEmpty

theorem mem_insertByKey_id {name x : String} {names : List String} :
    x ∈ insertByKey id name names ↔ x = name ∨ x ∈ names := by
  refine ⟨mem_of_mem_insertByKey, fun h => ?_⟩
  by_cases hx : x = name
  · exact hx ▸ mem_insertByKey_self id x names
  · exact mem_insertByKey_of_mem (h.resolve_left hx) hx

@[simp] theorem contains_insert (s : OptionSet) (name x : String) :
    (s.insert name).contains x = (x == name || s.contains x) := by
  rw [Bool.eq_iff_iff]
  simp [contains, insert, mem_insertByKey_id]

@[simp] theorem contains_insertAll (s : OptionSet) (names : List String) (x : String) :
    (s.insertAll names).contains x = (names.contains x || s.contains x) := by
  induction names generalizing s with
  | nil => simp [insertAll]
  | cons name rest ih =>
    have := ih (s.insert name)
    simp only [insertAll, List.foldl_cons] at this ⊢
    rw [this, contains_insert, List.contains_cons, Bool.or_left_comm, Bool.or_assoc]

theorem names_insertAll {s : OptionSet} {names : List String}
    (h : (s.names ++ names).Pairwise (· < ·)) : (s.insertAll names).names = s.names ++ names := by
  induction names generalizing s with
  | nil => rw [List.append_nil]; rfl
  | cons name rest ih =>
    have hname : ∀ x ∈ s.names, x < name := fun x hx =>
      (List.pairwise_append.mp h).2.2 x hx name (List.mem_cons_self ..)
    have hinsert : (s.insert name).names = s.names ++ [name] := insertByKey_of_forall_lt hname
    have hrest : ((s.insert name).names ++ rest).Pairwise (· < ·) := by
      rw [hinsert, List.append_assoc]
      exact h
    have heq := ih hrest
    rw [hinsert, List.append_assoc] at heq
    exact heq

theorem eq_of_names_eq {s t : OptionSet} (h : s.names = t.names) : s = t := by
  cases s
  cases t
  cases h
  rfl

/-- The names of a set make up the set. -/
theorem ofList_names (s : OptionSet) : ofList s.names = s :=
  eq_of_names_eq (names_insertAll (s := empty) s.ordered)

end OptionSet
end UrlFilter
