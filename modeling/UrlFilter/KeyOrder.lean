/-! Lists in strictly increasing order of the texts that their elements have as keys, so that no
two elements have one key. An element is put at its place, which keeps the order. -/
namespace UrlFilter

variable {α : Type} {key : α → String} {a x : α} {as : List α}

/-- Puts an element at its place in an increasing list, in place of one with its key. -/
def insertByKey (key : α → String) (a : α) : List α → List α
  | [] => [a]
  | b :: rest =>
    if key a < key b then a :: b :: rest
    else if key a = key b then a :: rest
    else b :: insertByKey key a rest

theorem mem_insertByKey_self (key : α → String) (a : α) (as : List α) :
    a ∈ insertByKey key a as := by
  induction as with
  | nil => exact List.mem_cons_self
  | cons b rest ih =>
    rw [insertByKey]
    split
    · exact List.mem_cons_self
    · split
      · exact List.mem_cons_self
      · exact List.mem_cons_of_mem b ih

theorem mem_of_mem_insertByKey (h : x ∈ insertByKey key a as) : x = a ∨ x ∈ as := by
  induction as with
  | nil => exact .inl (List.mem_singleton.mp h)
  | cons b rest ih =>
    rw [insertByKey] at h
    split at h
    · exact List.mem_cons.mp h
    · split at h
      · exact (List.mem_cons.mp h).imp_right (List.mem_cons_of_mem b)
      · rcases List.mem_cons.mp h with rfl | h
        · exact .inr List.mem_cons_self
        · exact (ih h).imp_right (List.mem_cons_of_mem b)

/-- Elements with other keys are kept. -/
theorem mem_insertByKey_of_mem (h : x ∈ as) (hne : key x ≠ key a) :
    x ∈ insertByKey key a as := by
  induction as with
  | nil => cases h
  | cons b rest ih =>
    rw [insertByKey]
    split
    · exact List.mem_cons_of_mem a h
    · split
      · rename_i heq
        rcases List.mem_cons.mp h with rfl | h
        · exact absurd heq.symm hne
        · exact List.mem_cons_of_mem a h
      · rcases List.mem_cons.mp h with rfl | h
        · exact List.mem_cons_self
        · exact List.mem_cons_of_mem b (ih h)

theorem pairwise_insertByKey (h : as.Pairwise fun x y => key x < key y) :
    (insertByKey key a as).Pairwise fun x y => key x < key y := by
  induction as with
  | nil => exact List.pairwise_singleton _ a
  | cons b rest ih =>
    obtain ⟨below, tail⟩ := List.pairwise_cons.mp h
    rw [insertByKey]
    split
    · rename_i hlt
      refine List.pairwise_cons.mpr ⟨fun x hx => ?_, h⟩
      rcases List.mem_cons.mp hx with rfl | hx
      · exact hlt
      · exact String.lt_trans hlt (below x hx)
    · split
      · rename_i heq
        exact List.pairwise_cons.mpr ⟨fun x hx => heq ▸ below x hx, tail⟩
      · rename_i hlt hne
        refine List.pairwise_cons.mpr ⟨fun x hx => ?_, ih tail⟩
        rcases mem_of_mem_insertByKey hx with rfl | hx
        · exact String.not_le.mp fun hle => hne (String.le_antisymm hle (String.not_lt.mp hlt))
        · exact below x hx

/-- An element with a greater key than all others goes behind them. -/
theorem insertByKey_of_forall_lt (h : ∀ x ∈ as, key x < key a) :
    insertByKey key a as = as ++ [a] := by
  induction as with
  | nil => rfl
  | cons b rest ih =>
    obtain ⟨hlt, hrest⟩ := List.forall_mem_cons.mp h
    rw [insertByKey, if_neg (String.lt_asymm hlt), if_neg (String.ne_of_lt hlt).symm, ih hrest,
      List.cons_append]

end UrlFilter
