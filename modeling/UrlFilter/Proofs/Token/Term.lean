import UrlFilter.Token.Scan

/-! Terms at the front of a text. `Lexeme.IsTerm` says which parts make up a term, without
saying how they are found; `Lexeme.read?_eq_some_iff` says that the reader finds them, and finds
nothing else. The operator of a term depends on what stands behind it: it is the first spelling
that leaves a value there. -/
namespace UrlFilter

/-- Whether the run of characters that pass `p` ends where the text `s` begins. -/
def StopsAt (p : Char → Bool) (s : List Char) : Prop :=
  ∀ c ∈ s.head?, p c = false

theorem stopsAt_nil (p : Char → Bool) : StopsAt p [] := by
  intro c hc
  simp at hc

theorem stopsAt_cons {p : Char → Bool} {c : Char} {s : List Char} :
    StopsAt p (c :: s) ↔ p c = false := by
  simp [StopsAt]

theorem stopsAt_dropWhile (p : Char → Bool) (s : List Char) : StopsAt p (s.dropWhile p) := by
  intro c hc
  have h := List.head?_dropWhile_not p s
  rw [Option.mem_def] at hc
  rw [hc] at h
  simpa using h

theorem takeWhile_append_of_stopsAt {p : Char → Bool} {run rest : List Char}
    (h : ∀ c ∈ run, p c = true) (hr : StopsAt p rest) : (run ++ rest).takeWhile p = run := by
  rw [List.takeWhile_append_of_pos h]
  cases rest with
  | nil => simp
  | cons c rest => simp [stopsAt_cons.mp hr]

theorem dropWhile_append_of_stopsAt {p : Char → Bool} {run rest : List Char}
    (h : ∀ c ∈ run, p c = true) (hr : StopsAt p rest) : (run ++ rest).dropWhile p = rest := by
  rw [List.dropWhile_append_of_pos h]
  cases rest with
  | nil => simp
  | cons c rest => simp [stopsAt_cons.mp hr]

theorem beq_of_mem_replicate {n : Nat} {c d : Char} (h : c ∈ List.replicate n d) :
    (c == d) = true := by
  simp [List.eq_of_mem_replicate h]

/-! ## Operators -/

/-- Whether the text begins with the spelling and a character of a value stands behind it. -/
def LeavesValue (spelling : String) (s : List Char) : Prop :=
  ∃ c rest, s = spelling.toList ++ c :: rest ∧ isValueChar c = true

/-- Whether the spelling is the first that begins the text and leaves a value. -/
def IsFirstSpelling (spelling : String) (s : List Char) : Prop :=
  LeavesValue spelling s ∧ ∃ before after, Operator.spellings = before ++ spelling :: after ∧
    ∀ other ∈ before, ¬ LeavesValue other s

theorem readSpelling?_eq_some_iff {s rest : List Char} {spelling op : String} :
    readSpelling? s spelling = some (op, rest) ↔
      op = spelling ∧ s = spelling.toList ++ rest ∧ LeavesValue spelling s := by
  unfold readSpelling?
  constructor
  · intro h
    split at h
    · rename_i hp
      simp only [Option.some.injEq, Prod.mk.injEq] at h
      obtain ⟨rfl, rfl⟩ := h
      simp only [Bool.and_eq_true, List.isPrefixOf_iff_prefix] at hp
      obtain ⟨⟨rest, rfl⟩, hv⟩ := hp
      rw [List.drop_left] at hv ⊢
      cases rest with
      | nil => simp [startsValue] at hv
      | cons c rest => exact ⟨rfl, rfl, c, rest, rfl, hv⟩
    · simp at h
  · rintro ⟨rfl, rfl, c, tail, hs, hc⟩
    have hr : rest = c :: tail := List.append_cancel_left hs
    subst hr
    simp [startsValue, hc]

theorem readSpelling?_eq_none_iff {s : List Char} {spelling : String} :
    readSpelling? s spelling = none ↔ ¬ LeavesValue spelling s := by
  rw [Option.eq_none_iff_forall_ne_some]
  constructor
  · rintro h ⟨c, rest, hs, hc⟩
    exact h (spelling, c :: rest) (readSpelling?_eq_some_iff.mpr ⟨rfl, hs, c, rest, hs, hc⟩)
  · rintro h ⟨op, rest⟩ hr
    exact h (readSpelling?_eq_some_iff.mp hr).2.2

theorem readOperator?_eq_some_iff {s rest : List Char} {op : String} :
    readOperator? s = some (op, rest) ↔ s = op.toList ++ rest ∧ IsFirstSpelling op s := by
  unfold readOperator?
  rw [List.findSome?_eq_some_iff]
  constructor
  · rintro ⟨before, spelling, after, hl, hs, hb⟩
    obtain ⟨rfl, hs, hv⟩ := readSpelling?_eq_some_iff.mp hs
    exact ⟨hs, hv, before, after, hl, fun o ho => readSpelling?_eq_none_iff.mp (hb o ho)⟩
  · rintro ⟨hs, hv, before, after, hl, hb⟩
    exact ⟨before, op, after, hl, readSpelling?_eq_some_iff.mpr ⟨rfl, hs, hv⟩,
      fun o ho => readSpelling?_eq_none_iff.mpr (hb o ho)⟩

theorem IsFirstSpelling.mem {op : String} {s : List Char} (h : IsFirstSpelling op s) :
    op ∈ Operator.spellings := by
  obtain ⟨-, before, after, hl, -⟩ := h
  rw [hl]
  simp

/-- No spelling begins with a character of a field, so that a field ends where the operator
begins. -/
theorem stopsAt_isFieldChar_of_mem_spellings {op : String} (h : op ∈ Operator.spellings)
    (s : List Char) : StopsAt isFieldChar (op.toList ++ s) := by
  have hall : ∀ o ∈ Operator.spellings, ∃ c cs, o.toList = c :: cs ∧ isFieldChar c = false := by
    simp [Operator.spellings, isFieldChar]
  obtain ⟨c, cs, ho, hc⟩ := hall op h
  rw [ho, List.cons_append]
  exact stopsAt_cons.mpr hc

/-- Every character of a spelling could stand in a value. -/
theorem isValueChar_of_mem_spellings {op : String} (h : op ∈ Operator.spellings) :
    ∀ c ∈ op.toList, isValueChar c = true := by
  have hall : ∀ o ∈ Operator.spellings, o.toList.all isValueChar = true := by decide
  exact List.all_eq_true.mp (hall op h)

theorem leavesValue_of_eq_append {spelling : String} {s rest tail : List Char}
    (hs : ∀ c ∈ s, isValueChar c = true) (hne : rest ≠ []) (h : s = spelling.toList ++ rest) :
    LeavesValue spelling (s ++ tail) := by
  subst h
  cases rest with
  | nil => exact absurd rfl hne
  | cons c rest => exact ⟨c, rest ++ tail, by simp, hs c (by simp)⟩

/-- A spelling that leaves a value leaves some of it before the run of value characters ends. -/
theorem eq_append_of_leavesValue {spelling : String} {s tail : List Char}
    (hspelling : ∀ c ∈ spelling.toList, isValueChar c = true) (ht : StopsAt isValueChar tail)
    (h : LeavesValue spelling (s ++ tail)) : ∃ rest, rest ≠ [] ∧ s = spelling.toList ++ rest := by
  obtain ⟨c, rest, heq, hc⟩ := h
  rcases List.append_eq_append_iff.mp heq with ⟨extra, hextra, htail⟩ | ⟨left, hleft, hrest⟩
  · -- the spelling would reach the end of the run, where no value character stands
    cases extra with
    | nil =>
      rw [htail, List.nil_append, stopsAt_cons, hc] at ht
      cases ht
    | cons d extra =>
      rw [htail, List.cons_append, stopsAt_cons, hspelling d (by simp [hextra])] at ht
      cases ht
  · cases left with
    | nil =>
      rw [List.nil_append] at hrest
      rw [← hrest, stopsAt_cons, hc] at ht
      cases ht
    | cons d left => exact ⟨d :: left, by simp, hleft⟩

/-- What ends the run of value characters behind a spelling makes no difference to it. -/
theorem LeavesValue.of_stopsAt {spelling : String} {s tail : List Char} (tail' : List Char)
    (hspelling : ∀ c ∈ spelling.toList, isValueChar c = true)
    (hs : ∀ c ∈ s, isValueChar c = true) (ht : StopsAt isValueChar tail)
    (h : LeavesValue spelling (s ++ tail)) : LeavesValue spelling (s ++ tail') := by
  obtain ⟨rest, hne, heq⟩ := eq_append_of_leavesValue hspelling ht h
  exact leavesValue_of_eq_append hs hne heq

theorem IsFirstSpelling.of_stopsAt {op : String} {s tail tail' : List Char}
    (hs : ∀ c ∈ s, isValueChar c = true) (ht : StopsAt isValueChar tail)
    (ht' : StopsAt isValueChar tail') (h : IsFirstSpelling op (s ++ tail)) :
    IsFirstSpelling op (s ++ tail') := by
  have hop := isValueChar_of_mem_spellings h.mem
  obtain ⟨hleaves, before, after, hl, hbefore⟩ := h
  refine ⟨hleaves.of_stopsAt tail' hop hs ht, before, after, hl, fun other hother hleft => ?_⟩
  have hmem : other ∈ Operator.spellings := by
    rw [hl]
    exact List.mem_append_left _ hother
  have hchars := isValueChar_of_mem_spellings hmem
  exact hbefore other hother (hleft.of_stopsAt tail hchars hs ht')

/-! ## Joining symbols -/

theorem readLogic?_of_stopsAt {s : List Char} (h : StopsAt (fun c => c == '&' || c == '|') s) :
    readLogic? true s = some ("", s) := by
  unfold readLogic?
  split
  · simp [stopsAt_cons] at h
  · simp [stopsAt_cons] at h
  · rfl

theorem logic_of_readLogic? {first : Bool} {s rest : List Char} {logic : String}
    (h : readLogic? first s = some (logic, rest)) :
    logic = "&" ∨ logic = "|" ∨ first = true ∧ logic = "" := by
  unfold readLogic? at h
  split at h
  · simp only [Option.some.injEq, Prod.mk.injEq] at h
    exact .inl h.1.symm
  · simp only [Option.some.injEq, Prod.mk.injEq] at h
    exact .inr (.inl h.1.symm)
  · split at h
    · rename_i hf
      simp only [Option.some.injEq, Prod.mk.injEq] at h
      exact .inr (.inr ⟨hf, h.1.symm⟩)
    · simp at h

/-! ## Whole terms -/

namespace Lexeme

/-- The text behind the field of a term that stands before `rest`. -/
def afterField (x : Lexeme) (rest : List Char) : List Char :=
  x.op.toList ++ (x.value.toList ++ (List.replicate x.closes ')' ++ rest))

/-- Whether these are the parts of a term before the text `rest`. At the very start of a text,
where `first` holds, the joining symbol may be missing. -/
structure IsTerm (first : Bool) (x : Lexeme) (rest : List Char) : Prop where
  logic : x.logic = "&" ∨ x.logic = "|" ∨ first = true ∧ x.logic = ""
  field_ne : x.field ≠ ""
  field_chars : ∀ c ∈ x.field.toList, isFieldChar c = true
  op : IsFirstSpelling x.op (x.afterField rest)
  value_ne : x.value ≠ ""
  value_chars : ∀ c ∈ x.value.toList, isValueChar c = true

/-- The text behind the joining symbol. -/
def afterLogic (x : Lexeme) (rest : List Char) : List Char :=
  List.replicate x.opens '(' ++ (x.field.toList ++ x.afterField rest)

theorem text_append (x : Lexeme) (rest : List Char) :
    x.text ++ rest = x.logic.toList ++ x.afterLogic rest := by
  simp only [text, afterLogic, afterField, List.append_assoc]

variable {first : Bool} {x : Lexeme} {s rest : List Char}

theorem isTerm_of_read? (h : read? first s = some (x, rest)) :
    s = x.text ++ rest ∧ x.IsTerm first rest ∧
      (x.closes = 0 → StopsAt isValueChar rest) ∧ StopsAt (· == ')') rest := by
  have hs := (eq_append_of_read? h).1
  refine ⟨hs, ?_⟩
  unfold read? at h
  split at h
  · simp at h
  · rename_i logic afterLogic hl
    dsimp only at h
    split at h
    · simp at h
    · rename_i c field hf
      split at h
      · simp at h
      · rename_i op afterOp ho
        simp only [Option.some.injEq, Prod.mk.injEq] at h
        obtain ⟨rfl, rfl⟩ := h
        obtain ⟨hop, hfirst⟩ := readOperator?_eq_some_iff.mp ho
        have hv : LeavesValue op (op.toList ++ afterOp) := hop ▸ hfirst.1
        obtain ⟨v, vs, hvs, hvc⟩ := hv
        have hafter : afterOp = v :: vs := List.append_cancel_left hvs
        refine ⟨⟨logic_of_readLogic? hl, ?_, ?_, ?_, ?_, ?_⟩, ?_, stopsAt_dropWhile _ _⟩
        · simp [← String.toList_inj]
        · intro d hd
          rw [String.toList_ofList, ← hf] at hd
          exact List.all_eq_true.mp List.all_takeWhile d hd
        · -- the operator was chosen by all that stands behind the field
          rw [afterField, String.toList_ofList, replicate_takeWhile_length,
            List.takeWhile_append_dropWhile, List.takeWhile_append_dropWhile, ← hop]
          exact hfirst
        · simp [← String.toList_inj, hafter, hvc]
        · intro d hd
          rw [String.toList_ofList] at hd
          exact List.all_eq_true.mp List.all_takeWhile d hd
        · -- with no parenthesis behind it, the value is as long as it can be
          intro hc
          have hnil : (afterOp.dropWhile isValueChar).takeWhile (· == ')') = [] :=
            List.length_eq_zero_iff.mp hc
          have hdrop := List.takeWhile_append_dropWhile (p := (· == ')'))
            (l := afterOp.dropWhile isValueChar)
          rw [hnil, List.nil_append] at hdrop
          rw [hdrop]
          exact stopsAt_dropWhile _ _

theorem IsTerm.stopsAt_field (h : x.IsTerm first rest) {p : Char → Bool}
    (hp : ∀ c, isFieldChar c = true → p c = false) (s : List Char) :
    StopsAt p (x.field.toList ++ s) := by
  cases hf : x.field.toList with
  | nil => exact absurd (String.toList_inj.mp hf) h.field_ne
  | cons c field => exact stopsAt_cons.mpr (hp c (h.field_chars c (by simp [hf])))

theorem IsTerm.weaken (h : x.IsTerm false rest) : x.IsTerm first rest := by
  refine { h with logic := ?_ }
  rcases h.logic with hl | hl | ⟨hf, -⟩
  · exact .inl hl
  · exact .inr (.inl hl)
  · cases hf

theorem stopsAt_closes (closes : Nat) (h : StopsAt isValueChar rest) :
    StopsAt isValueChar (List.replicate closes ')' ++ rest) := by
  cases closes with
  | zero => exact h
  | succ n => exact stopsAt_cons.mpr rfl

/-- The term without its parentheses. -/
def bare (x : Lexeme) : Lexeme :=
  { x with opens := 0, closes := 0 }

/-- A term stays one whatever its parentheses are and whatever stands behind it, if only that does
not go on with its value. -/
theorem IsTerm.of_bare {y : Lexeme} {rest' : List Char} (h : x.IsTerm first rest)
    (hbare : y.bare = x.bare) (hr : StopsAt isValueChar rest) (hr' : StopsAt isValueChar rest') :
    y.IsTerm first rest' := by
  have hafter (z : Lexeme) (tail : List Char) : z.afterField tail =
      (z.op.toList ++ z.value.toList) ++ (List.replicate z.closes ')' ++ tail) := by
    simp only [afterField, List.append_assoc]
  have hchars : ∀ c ∈ x.op.toList ++ x.value.toList, isValueChar c = true := by
    intro c hc
    rcases List.mem_append.mp hc with hc | hc
    · exact isValueChar_of_mem_spellings h.op.mem c hc
    · exact h.value_chars c hc
  have hop := h.op
  rw [hafter] at hop
  obtain ⟨logic, opens, field, op, value, closes⟩ := y
  obtain ⟨rfl, -, rfl, rfl, rfl, -⟩ := Lexeme.mk.inj hbare
  refine { h with op := ?_ }
  rw [hafter]
  exact hop.of_stopsAt hchars (stopsAt_closes _ hr) (stopsAt_closes _ hr')

/-- A term stays one whatever stands behind it, if only that does not go on with its value. -/
theorem IsTerm.of_stopsAt {rest' : List Char} (h : x.IsTerm first rest)
    (hr : StopsAt isValueChar rest) (hr' : StopsAt isValueChar rest') :
    x.IsTerm first rest' :=
  h.of_bare rfl hr hr'

theorem readLogic?_of_isTerm (h : x.IsTerm first rest) :
    readLogic? first (x.text ++ rest) = some (x.logic, x.afterLogic rest) := by
  rw [text_append]
  rcases h.logic with hl | hl | ⟨rfl, hl⟩
  · rw [hl]
    rfl
  · rw [hl]
    rfl
  · rw [hl]
    apply readLogic?_of_stopsAt
    show StopsAt _ (x.afterLogic rest)
    rw [afterLogic]
    -- what stands there instead of a joining symbol is a parenthesis or the field
    cases x.opens with
    | zero =>
      apply h.stopsAt_field
      intro c hc
      have hne : c ≠ '&' ∧ c ≠ '|' :=
        ⟨by rintro rfl; simp [isFieldChar] at hc, by rintro rfl; simp [isFieldChar] at hc⟩
      simp [hne]
    | succ n => exact stopsAt_cons.mpr rfl

/-- Every term is read back from before a text that does not go on with its last part. -/
theorem read?_of_isTerm (h : x.IsTerm first rest) (hv : x.closes = 0 → StopsAt isValueChar rest)
    (hc : StopsAt (· == ')') rest) : read? first (x.text ++ rest) = some (x, rest) := by
  have hopens : ∀ c ∈ List.replicate x.opens '(', (c == '(') = true :=
    fun _ hc => beq_of_mem_replicate hc
  have hopensStop : StopsAt (· == '(') (x.field.toList ++ x.afterField rest) := by
    apply h.stopsAt_field
    intro c hc
    have hne : c ≠ '(' := by rintro rfl; simp [isFieldChar] at hc
    simp [hne]
  have hfieldStop : StopsAt isFieldChar (x.afterField rest) :=
    stopsAt_isFieldChar_of_mem_spellings h.op.mem _
  have hcloses : ∀ c ∈ List.replicate x.closes ')', (c == ')') = true :=
    fun _ hc => beq_of_mem_replicate hc
  have hvalueStop : StopsAt isValueChar (List.replicate x.closes ')' ++ rest) := by
    cases hn : x.closes with
    | zero => exact hv hn
    | succ n => exact stopsAt_cons.mpr rfl
  have hop : readOperator? (x.afterField rest) =
      some (x.op, x.value.toList ++ (List.replicate x.closes ')' ++ rest)) :=
    readOperator?_eq_some_iff.mpr ⟨rfl, h.op⟩
  unfold read?
  rw [readLogic?_of_isTerm h]
  dsimp only
  rw [afterLogic, takeWhile_append_of_stopsAt hopens hopensStop,
    dropWhile_append_of_stopsAt hopens hopensStop,
    takeWhile_append_of_stopsAt h.field_chars hfieldStop,
    dropWhile_append_of_stopsAt h.field_chars hfieldStop]
  split
  · rename_i hf
    exact absurd (String.toList_inj.mp hf) h.field_ne
  · rename_i c field hf
    rw [hop]
    dsimp only
    rw [takeWhile_append_of_stopsAt h.value_chars hvalueStop,
      dropWhile_append_of_stopsAt h.value_chars hvalueStop,
      takeWhile_append_of_stopsAt hcloses hc, dropWhile_append_of_stopsAt hcloses hc, ← hf]
    simp

/-- The reader takes exactly the terms: their parts as long as they can be, and the first
spelling that leaves a value. -/
theorem read?_eq_some_iff : read? first s = some (x, rest) ↔
    s = x.text ++ rest ∧ x.IsTerm first rest ∧
      (x.closes = 0 → StopsAt isValueChar rest) ∧ StopsAt (· == ')') rest := by
  constructor
  · exact isTerm_of_read?
  · rintro ⟨rfl, h, hv, hc⟩
    exact read?_of_isTerm h hv hc

end Lexeme
end UrlFilter
