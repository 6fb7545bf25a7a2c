import UrlFilter.Proofs.Json.Decode

/-! The members of objects. `named` gives what an object has under a name, and `Permuted` says that
two documents differ in the order of the members of their objects and in nothing else. The order
counts neither for how deeply a document is nested nor for whether its strings and numbers have
values: `Permuted.nesting_eq` and `Permuted.isPlain_eq`. -/
namespace UrlFilter
namespace Json

/-- The values of the members with a name, in the order of the members. -/
def named (name : String) (members : List (Option String × Json)) : List Json :=
  members.filterMap fun m => if m.1 = some name then some m.2 else none

section Named

variable {name : String} {v : Json} {m : Option String × Json}
  {members members' : List (Option String × Json)}

@[simp] theorem named_nil (name : String) : named name [] = [] := rfl

@[simp] theorem named_cons_self (name : String) (v : Json)
    (members : List (Option String × Json)) :
    named name ((some name, v) :: members) = v :: named name members := by
  simp [named]

theorem named_cons_of_ne (h : m.1 ≠ some name) :
    named name (m :: members) = named name members := by
  simp [named, h]

theorem named_append (name : String) (members members' : List (Option String × Json)) :
    named name (members ++ members') = named name members ++ named name members' :=
  List.filterMap_append

theorem mem_of_named_eq_singleton (h : named name members = [v]) : (some name, v) ∈ members := by
  have hv : v ∈ named name members := h ▸ List.mem_singleton_self v
  obtain ⟨m, hm, heq⟩ := List.mem_filterMap.mp hv
  split at heq
  · rename_i hname
    cases heq
    rw [← hname]
    exact hm
  · cases heq

/-- A name that stands once has the same value in whatever order the members stand. -/
theorem named_eq_singleton_of_perm (h : members.Perm members')
    (hv : named name members = [v]) : named name members' = [v] := by
  have hperm : (named name members).Perm (named name members') := h.filterMap _
  rw [hv] at hperm
  exact (List.singleton_perm.mp hperm).symm

/-- Replacing a value changes nothing about a name that stands once, as far as a property goes that
both values have or neither has. -/
theorem exists_named_replace_iff {P : Json → Prop} {v' : Json} (h : P v ↔ P v')
    (before after : List (Option String × Json)) (other : Option String) :
    (∃ u, named name (before ++ (other, v) :: after) = [u] ∧ P u) ↔
      ∃ u, named name (before ++ (other, v') :: after) = [u] ∧ P u := by
  by_cases hother : other = some name
  · subst hother
    rw [named_append, named_append, named_cons_self, named_cons_self]
    cases named name before with
    | nil => cases named name after <;> simp [h]
    | cons u us => simp
  · rw [named_append, named_append, named_cons_of_ne hother, named_cons_of_ne hother]

end Named

/-! ## Nesting and plainness by members -/

theorem nesting_object_le_iff {members : List (Option String × Json)} {n : Nat} :
    (object members).nesting ≤ n + 1 ↔ ∀ m ∈ members, m.2.nesting ≤ n := by
  rw [nesting, Nat.add_le_add_iff_right, nestingOfMembers_le_iff]

theorem nesting_lt_of_mem {members : List (Option String × Json)} {name : Option String}
    {v : Json} (h : (name, v) ∈ members) : v.nesting < (object members).nesting := by
  rw [nesting]
  exact Nat.lt_succ_of_le (nestingOfMembers_le_iff.mp (Nat.le_refl _) _ h)

theorem isPlain_array_iff {items : List Json} :
    (array items).isPlain = true ↔ ∀ v ∈ items, v.isPlain = true := by
  rw [isPlain]
  induction items with
  | nil => simp [arePlain]
  | cons v items ih => rw [arePlain, Bool.and_eq_true, ih, List.forall_mem_cons]

theorem isPlain_object_iff {members : List (Option String × Json)} :
    (object members).isPlain = true ↔ ∀ m ∈ members, m.1.isSome = true ∧ m.2.isPlain = true := by
  rw [isPlain]
  induction members with
  | nil => simp [membersArePlain]
  | cons m members ih =>
    rw [membersArePlain, Bool.and_eq_true, Bool.and_eq_true, ih, List.forall_mem_cons]

/-- Whether the second document is the first with the members of some of its objects in another
order. -/
inductive Permuted : Json → Json → Prop
  | refl (v : Json) : Permuted v v
  | members {members members' : List (Option String × Json)} (h : members.Perm members') :
      Permuted (.object members) (.object members')
  | item {v v' : Json} (before after : List Json) (h : Permuted v v') :
      Permuted (.array (before ++ v :: after)) (.array (before ++ v' :: after))
  | member {v v' : Json} (before after : List (Option String × Json)) (name : Option String)
      (h : Permuted v v') :
      Permuted (.object (before ++ (name, v) :: after)) (.object (before ++ (name, v') :: after))
  | trans {u v w : Json} (h : Permuted u v) (h' : Permuted v w) : Permuted u w

namespace Permuted

variable {v v' : Json}

theorem nesting_eq (h : Permuted v v') : v'.nesting = v.nesting := by
  induction h with
  | refl => rfl
  | members h =>
    refine Nat.le_antisymm ?_ ?_
    · exact nesting_object_le_iff.mpr fun m hm =>
        Nat.le_of_lt_succ (nesting_lt_of_mem (h.mem_iff.mpr hm))
    · exact nesting_object_le_iff.mpr fun m hm =>
        Nat.le_of_lt_succ (nesting_lt_of_mem (h.mem_iff.mp hm))
  | item before after _ ih =>
    simp only [nesting]
    induction before with
    | nil => simp only [List.nil_append, nestingOfItems, ih]
    | cons u before ihb =>
      simp only [List.cons_append, nestingOfItems]
      omega
  | member before after name _ ih =>
    simp only [nesting]
    induction before with
    | nil => simp only [List.nil_append, nestingOfMembers, ih]
    | cons m before ihb =>
      simp only [List.cons_append, nestingOfMembers]
      omega
  | trans _ _ ih ih' => exact ih'.trans ih

theorem isPlain_eq (h : Permuted v v') : v'.isPlain = v.isPlain := by
  induction h with
  | refl => rfl
  | members h =>
    rw [Bool.eq_iff_iff, isPlain_object_iff, isPlain_object_iff]
    exact ⟨fun hall m hm => hall m (h.mem_iff.mp hm), fun hall m hm => hall m (h.mem_iff.mpr hm)⟩
  | item before after _ ih =>
    rw [Bool.eq_iff_iff, isPlain_array_iff, isPlain_array_iff]
    simp only [List.forall_mem_append, List.forall_mem_cons, ih]
  | member before after name _ ih =>
    rw [Bool.eq_iff_iff, isPlain_object_iff, isPlain_object_iff]
    simp only [List.forall_mem_append, List.forall_mem_cons, ih]
  | trans _ _ ih ih' => exact ih'.trans ih

/-- What is no object and no array has one form. -/
theorem eq_string_iff {text : Option String} (h : Permuted v v') :
    v = .string text ↔ v' = .string text := by
  induction h with
  | refl => rfl
  | members | item | member => exact iff_of_false nofun nofun
  | trans _ _ ih ih' => exact ih.trans ih'

end Permuted

end Json
end UrlFilter
