import UrlFilter.Sql.OrderBy

/-! What an order writes: the sortable columns of its keys with commas between them, and nothing at
all if there is none. -/
namespace UrlFilter.Sql

/-- The columns of the sortable keys, each with its direction. -/
def orderEntries (fields : SortFields) (keys : List SortKey) : List String :=
  keys.filterMap fun k => (fields.find? k.field).map (· ++ direction k)

variable {fields : SortFields} {k : SortKey} {keys : List SortKey}

theorem orderEntries_cons_of_none (h : fields.find? k.field = none) :
    orderEntries fields (k :: keys) = orderEntries fields keys :=
  List.filterMap_cons_none (by rw [h]; rfl)

theorem orderEntries_cons_of_some {column : String} (h : fields.find? k.field = some column) :
    orderEntries fields (k :: keys) = (column ++ direction k) :: orderEntries fields keys :=
  List.filterMap_cons_some (by rw [h]; rfl)

/-- Behind an entry that is written, all further entries follow a comma. -/
theorem addKeys_false_eq (clause entry : String) :
    addKeys fields false (clause ++ entry) keys =
      clause ++ ", ".intercalate (entry :: orderEntries fields keys) := by
  induction keys generalizing clause entry with
  | nil => simp [addKeys, orderEntries]
  | cons k rest ih =>
    rw [addKeys]
    split
    · rename_i hnone
      rw [ih, orderEntries_cons_of_none hnone]
    · rename_i column hsome
      have hwritten : clause ++ entry ++ beforeColumn false (clause ++ entry) ++ column ++
          direction k = (clause ++ entry ++ ", ") ++ (column ++ direction k) := by
        simp [beforeColumn, String.append_assoc]
      rw [hwritten, ih, orderEntries_cons_of_some hsome, String.intercalate_cons_cons]
      simp [String.append_assoc]

/-- An order begins with its keyword, if there is anything to order by. -/
theorem addOrder_eq (clause : String) :
    addOrder fields clause keys =
      if orderEntries fields keys = [] then clause
      else clause ++ gapAfter clause ++ "ORDER BY " ++
        ", ".intercalate (orderEntries fields keys) := by
  unfold addOrder
  induction keys with
  | nil => rfl
  | cons k rest ih =>
    rw [addKeys]
    split
    · rename_i hnone
      rw [ih, orderEntries_cons_of_none hnone]
    · rename_i column hsome
      have hwritten : clause ++ beforeColumn true clause ++ column ++ direction k =
          (clause ++ gapAfter clause ++ "ORDER BY ") ++ (column ++ direction k) := by
        simp [beforeColumn, String.append_assoc]
      -- from the first key on that is written, the keyword stands
      rw [hwritten, addKeys_false_eq, orderEntries_cons_of_some hsome,
        if_neg (List.cons_ne_nil _ _)]

theorem gapAfter_of_last {clause : String} {before : List Char} {c : Char}
    (h : clause.toList = before ++ [c]) (hc : c ≠ ' ') : gapAfter clause = " " := by
  unfold gapAfter
  rw [h, List.getLast?_concat]
  dsimp only
  rw [if_neg hc]

/-- Behind a clause that does not end in a blank, an order follows a blank of its own. -/
theorem exists_order (fields : SortFields) (keys : List SortKey) {clause : String}
    {before : List Char} {c : Char} (h : clause.toList = before ++ [c]) (hc : c ≠ ' ') :
    ∃ order, addOrder fields clause keys = clause ++ order ∧
      (order = "" ∨ ∃ entries, order = " ORDER BY " ++ entries) := by
  rw [addOrder_eq, gapAfter_of_last h hc]
  split
  · exact ⟨"", String.append_empty.symm, .inl rfl⟩
  · refine ⟨_, ?_, .inr ⟨", ".intercalate (orderEntries fields keys), rfl⟩⟩
    rw [show " ORDER BY " = " " ++ "ORDER BY " from rfl]
    simp only [String.append_assoc]

/-- Behind a clause that does not end in a blank stands the order as it is by itself, with a blank
before it. -/
theorem addOrder_eq_append {clause : String} {before : List Char} {c : Char}
    (h : clause.toList = before ++ [c]) (hc : c ≠ ' ') :
    addOrder fields clause keys =
      clause ++ if addOrder fields "" keys = "" then "" else " " ++ addOrder fields "" keys := by
  rw [addOrder_eq clause, addOrder_eq "", gapAfter_of_last h hc, show gapAfter "" = "" from rfl,
    String.empty_append, String.empty_append]
  by_cases hnone : orderEntries fields keys = []
  · simp [hnone]
  · have hne : "ORDER BY " ++ ", ".intercalate (orderEntries fields keys) ≠ "" := by
      intro heq
      simpa using congrArg String.toList heq
    rw [if_neg hnone, if_neg hnone, if_neg hne]
    simp only [String.append_assoc]

end UrlFilter.Sql
