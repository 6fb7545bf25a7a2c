import UrlFilter.Operator
import UrlFilter.Token

/-! Scanning: the terms of a text, from left to right. A term starts with `&` or `|`, or at the
very start of the text with nothing. Then come any number of `(`, a field of ASCII letters, `_`
and `.`, an operator, a value without `&`, `|` and `)`, and any number of `)`. Each of these
parts is as long as it can be; the operator is the first spelling that leaves a value. Text that
starts no term is skipped, one character at a time. -/
namespace UrlFilter

/-- The characters of field names. -/
def isFieldChar (c : Char) : Bool :=
  ('a' ≤ c && c ≤ 'z') || ('A' ≤ c && c ≤ 'Z') || c == '_' || c == '.'

/-- The characters of values. -/
def isValueChar (c : Char) : Bool :=
  c != '&' && c != '|' && c != ')'

/-- Whether a value can start here. -/
def startsValue : List Char → Bool
  | [] => false
  | c :: _ => isValueChar c

/-- Reads a joining symbol. At the start of the text there may be none. -/
def readLogic? (first : Bool) : List Char → Option (String × List Char)
  | '&' :: rest => some ("&", rest)
  | '|' :: rest => some ("|", rest)
  | s => if first then some ("", s) else none

/-- Reads one operator spelling, if a value follows it. -/
def readSpelling? (s : List Char) (spelling : String) : Option (String × List Char) :=
  if spelling.toList.isPrefixOf s && startsValue (s.drop spelling.toList.length) then
    some (spelling, s.drop spelling.toList.length)
  else none

/-- Reads an operator in the first spelling that a value follows. -/
def readOperator? (s : List Char) : Option (String × List Char) :=
  Operator.spellings.findSome? (readSpelling? s)

/-- Reads one term from the front of a text. -/
def Lexeme.read? (first : Bool) (s : List Char) : Option (Lexeme × List Char) :=
  match readLogic? first s with
  | none => none
  | some (logic, afterLogic) =>
    let afterOpens := afterLogic.dropWhile (· == '(')
    match afterOpens.takeWhile isFieldChar with
    | [] => none
    | c :: field =>
      match readOperator? (afterOpens.dropWhile isFieldChar) with
      | none => none
      | some (op, afterOp) =>
        let afterValue := afterOp.dropWhile isValueChar
        some (
          { logic
            opens := (afterLogic.takeWhile (· == '(')).length
            field := String.ofList (c :: field)
            op
            value := String.ofList (afterOp.takeWhile isValueChar)
            closes := (afterValue.takeWhile (· == ')')).length },
          afterValue.dropWhile (· == ')'))

theorem eq_append_of_readLogic? {first : Bool} {s rest : List Char} {logic : String}
    (h : readLogic? first s = some (logic, rest)) : s = logic.toList ++ rest := by
  unfold readLogic? at h
  split at h
  · simp only [Option.some.injEq, Prod.mk.injEq] at h
    obtain ⟨rfl, rfl⟩ := h
    rfl
  · simp only [Option.some.injEq, Prod.mk.injEq] at h
    obtain ⟨rfl, rfl⟩ := h
    rfl
  · split at h
    · simp only [Option.some.injEq, Prod.mk.injEq] at h
      obtain ⟨rfl, rfl⟩ := h
      rfl
    · simp at h

theorem eq_append_of_readOperator? {s rest : List Char} {op : String}
    (h : readOperator? s = some (op, rest)) : s = op.toList ++ rest := by
  obtain ⟨spelling, -, hs⟩ := List.exists_of_findSome?_eq_some h
  unfold readSpelling? at hs
  split at hs
  · rename_i hp
    simp only [Option.some.injEq, Prod.mk.injEq] at hs
    obtain ⟨rfl, rfl⟩ := hs
    simp only [Bool.and_eq_true, List.isPrefixOf_iff_prefix] at hp
    exact List.prefix_iff_eq_append.mp hp.1 |>.symm
  · simp at hs

theorem replicate_takeWhile_length (c : Char) (s : List Char) :
    List.replicate (s.takeWhile (· == c)).length c = s.takeWhile (· == c) := by
  symm
  rw [List.eq_replicate_iff]
  exact ⟨rfl, fun b hb => by simpa using List.all_eq_true.mp List.all_takeWhile b hb⟩

/-- A text is what was read from its front and the rest, and a term is never empty. -/
theorem Lexeme.eq_append_of_read? {first : Bool} {s rest : List Char} {x : Lexeme}
    (h : Lexeme.read? first s = some (x, rest)) : s = x.text ++ rest ∧ x.field ≠ "" := by
  unfold Lexeme.read? at h
  split at h
  · simp at h
  · rename_i logic afterLogic hl
    simp only at h
    split at h
    · simp at h
    · rename_i c field hf
      split at h
      · simp at h
      · rename_i op afterOp ho
        simp only [Option.some.injEq, Prod.mk.injEq] at h
        obtain ⟨rfl, rfl⟩ := h
        have hl := eq_append_of_readLogic? hl
        have ho := eq_append_of_readOperator? ho
        refine ⟨?_, by simp [← String.toList_inj]⟩
        simp only [Lexeme.text, String.toList_ofList, replicate_takeWhile_length, ← hf,
          List.append_assoc, List.takeWhile_append_dropWhile]
        rw [← ho, List.takeWhile_append_dropWhile, List.takeWhile_append_dropWhile, hl]

theorem Lexeme.length_lt_of_read? {first : Bool} {s rest : List Char} {x : Lexeme}
    (h : Lexeme.read? first s = some (x, rest)) : rest.length < s.length := by
  obtain ⟨rfl, hf⟩ := Lexeme.eq_append_of_read? h
  have hne : x.field.toList ≠ [] := fun he => hf (String.toList_inj.mp he)
  have := List.length_pos_iff.mpr hne
  simp only [Lexeme.text, List.length_append]
  omega

/-- The terms of the rest of a text, whose first character is at byte `offset`. -/
def Token.scanFrom (offset : Nat) (s : List Char) : List Token :=
  match _h : Lexeme.read? (offset == 0) s with
  | some (x, rest) =>
    { x with span := ⟨offset, offset + x.byteLength⟩ } ::
      scanFrom (offset + x.byteLength) rest
  | none =>
    match s with
    | [] => []
    | c :: rest => scanFrom (offset + c.utf8Size) rest
termination_by s.length
decreasing_by
  · exact Lexeme.length_lt_of_read? _h
  · simp

/-- The terms of a text, from left to right. -/
def Token.scan (s : String) : List Token :=
  scanFrom 0 s.toList

end UrlFilter
