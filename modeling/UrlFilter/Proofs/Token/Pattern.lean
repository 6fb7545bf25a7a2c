import UrlFilter.Proofs.Token.Term

/-! Patterns with ordered choice, and the pattern of a term. A pattern lists its matches at the
front of a text, the preferred one first: runs prefer to be long, and an alternative comes behind
all matches of the alternatives before it. What a search reports is the first match of all, so a
part gives way only if nothing behind it fits. The reader of terms never goes back in this way;
`Lexeme.match?_term` says that it finds the same. -/
namespace UrlFilter

/-- A pattern for the front of a text. -/
inductive Pattern where
  /-- Fits nothing. -/
  | nothing
  /-- Fits the empty text, at the very start of a text only. -/
  | start
  /-- One character that passes. -/
  | one (p : Char → Bool)
  /-- Any number of characters that pass, as many as can be. -/
  | many (p : Char → Bool)
  | text (t : String)
  | seq (first second : Pattern)
  /-- The second only where the first does not lead to a match. -/
  | either (first second : Pattern)
  /-- Remembers the text that it fits. -/
  | group (inner : Pattern)

/-- How a pattern fits: the text, what its groups remember, and the text behind it. -/
structure Pattern.Match where
  text : List Char
  groups : List (List Char)
  rest : List Char

namespace Pattern

/-- One match behind another. -/
def Match.append (m n : Match) : Match :=
  ⟨m.text ++ n.text, m.groups ++ n.groups, n.rest⟩

/-- The ways to take characters that pass from the front of a text, the longest first. -/
def runs (p : Char → Bool) : List Char → List Match
  | [] => [⟨[], [], []⟩]
  | c :: s =>
    if p c then (runs p s).map (Match.append ⟨[c], [], s⟩) ++ [⟨[], [], c :: s⟩]
    else [⟨[], [], c :: s⟩]

/-- The matches at the front of a text, in order of preference. `atStart` tells whether nothing
stands before it. -/
def matchesAt : Pattern → Bool → List Char → List Match
  | nothing, _, _ => []
  | start, atStart, s => if atStart then [⟨[], [], s⟩] else []
  | one _, _, [] => []
  | one p, _, c :: s => if p c then [⟨[c], [], s⟩] else []
  | many p, _, s => runs p s
  | text t, _, s =>
    if t.toList.isPrefixOf s then [⟨t.toList, [], s.drop t.toList.length⟩] else []
  | seq a b, atStart, s =>
    (a.matchesAt atStart s).flatMap fun m =>
      (b.matchesAt (atStart && m.text.isEmpty) m.rest).map m.append
  | either a b, atStart, s => a.matchesAt atStart s ++ b.matchesAt atStart s
  | group a, atStart, s =>
    (a.matchesAt atStart s).map fun m => { m with groups := m.text :: m.groups }

/-- The match that a search reports. -/
def match? (pattern : Pattern) (atStart : Bool) (s : List Char) : Option Match :=
  (pattern.matchesAt atStart s).head?

/-- One character or more. -/
def atLeastOne (p : Char → Bool) : Pattern :=
  seq (one p) (many p)

/-- One of some texts, tried in their order. -/
def oneOf : List String → Pattern
  | [] => nothing
  | t :: ts => either (text t) (oneOf ts)

/-- A value and the parentheses behind it. -/
def value : Pattern :=
  seq (group (atLeastOne isValueChar)) (group (many (· == ')')))

/-- An operator and what stands behind it. -/
def comparison : Pattern :=
  seq (group (oneOf Operator.spellings)) value

/-- A field and what stands behind it. -/
def predicate : Pattern :=
  seq (group (atLeastOne isFieldChar)) comparison

/-- A term without its joining symbol. -/
def operand : Pattern :=
  seq (group (many (· == '('))) predicate

/-- A term. Its groups are the joining symbol, the opening parentheses, the field, the operator,
the value and the closing parentheses. -/
def term : Pattern :=
  seq (group (either (one (· == '&')) (either start (one (· == '|'))))) operand

/-! ## Runs -/

/-- Behind every run but the longest stands a character that could have gone into it. -/
theorem runs_eq (p : Char → Bool) (s : List Char) :
    ∃ shorter, runs p s = ⟨s.takeWhile p, [], s.dropWhile p⟩ :: shorter ∧
      ∀ m ∈ shorter, ∃ c rest, m.rest = c :: rest ∧ p c = true := by
  induction s with
  | nil => exact ⟨[], rfl, by simp⟩
  | cons c s ih =>
    obtain ⟨shorter, heq, hshorter⟩ := ih
    unfold runs
    by_cases hc : p c = true
    · rw [if_pos hc, heq, List.takeWhile_cons_of_pos hc, List.dropWhile_cons_of_pos hc]
      refine ⟨shorter.map (Match.append ⟨[c], [], s⟩) ++ [⟨[], [], c :: s⟩], rfl, ?_⟩
      intro m hm
      rw [List.mem_append, List.mem_map, List.mem_singleton] at hm
      rcases hm with ⟨n, hn, rfl⟩ | rfl
      · exact hshorter n hn
      · exact ⟨c, s, rfl, hc⟩
    · rw [if_neg hc, List.takeWhile_cons_of_neg hc, List.dropWhile_cons_of_neg hc]
      exact ⟨[], rfl, by simp⟩

/-- What goes on behind a run needs no shorter run: it fits behind the longest, or it never fits
where the run could go on. -/
def SettlesRun {α : Type} (p : Char → Bool) (longest : Match) (k : Match → Option α) : Prop :=
  (k longest).isSome ∨ ∀ m c rest, m.rest = c :: rest → p c = true → k m = none

theorem findSome?_runs {α : Type} {p : Char → Bool} {s : List Char} {k : Match → Option α}
    (h : SettlesRun p ⟨s.takeWhile p, [], s.dropWhile p⟩ k) :
    (runs p s).findSome? k = k ⟨s.takeWhile p, [], s.dropWhile p⟩ := by
  obtain ⟨shorter, heq, hshorter⟩ := runs_eq p s
  rw [heq, List.findSome?_cons]
  cases hk : k ⟨s.takeWhile p, [], s.dropWhile p⟩ with
  | some r => rfl
  | none =>
    -- the longest run leads nowhere, and neither does any other
    rcases h with h | h
    · simp [hk] at h
    · apply List.findSome?_eq_none_iff.mpr
      intro m hm
      obtain ⟨c, rest, hrest, hc⟩ := hshorter m hm
      exact h m c rest hrest hc

theorem findSome?_atLeastOne {α : Type} {p : Char → Bool} {atStart : Bool} {s : List Char}
    {k : Match → Option α} (h : SettlesRun p ⟨s.takeWhile p, [], s.dropWhile p⟩ k) :
    ((atLeastOne p).matchesAt atStart s).findSome? k =
      if s.takeWhile p = [] then none else k ⟨s.takeWhile p, [], s.dropWhile p⟩ := by
  cases s with
  | nil => simp [atLeastOne, matchesAt]
  | cons c s =>
    by_cases hc : p c = true
    · have hmatches : (atLeastOne p).matchesAt atStart (c :: s) =
          (runs p s).map (Match.append ⟨[c], [], s⟩) := by
        simp [atLeastOne, matchesAt, hc]
      rw [List.takeWhile_cons_of_pos hc, List.dropWhile_cons_of_pos hc] at h ⊢
      rw [hmatches, List.findSome?_map, findSome?_runs, if_neg (by simp)]
      · rfl
      · exact h.imp id fun h m => h (Match.append ⟨[c], [], s⟩ m)
    · simp [atLeastOne, matchesAt, hc]

/-! ## Parts of the pattern -/

theorem match?_seq_group (a b : Pattern) (atStart : Bool) (s : List Char) :
    (seq (group a) b).match? atStart s =
      (a.matchesAt atStart s).findSome? fun m =>
        (b.match? (atStart && m.text.isEmpty) m.rest).map fun n =>
          ⟨m.text ++ n.text, m.text :: (m.groups ++ n.groups), n.rest⟩ := by
  simp only [match?, matchesAt, List.head?_flatMap, List.findSome?_map, List.head?_map]
  rfl

/-- The match of a value and parentheses at the front of a text. -/
def valueMatch (s : List Char) : Match :=
  let after := s.dropWhile isValueChar
  ⟨s.takeWhile isValueChar ++ after.takeWhile (· == ')'),
    [s.takeWhile isValueChar, after.takeWhile (· == ')')], after.dropWhile (· == ')')⟩

theorem match?_many (p : Char → Bool) (atStart : Bool) (s : List Char) :
    (group (many p)).match? atStart s =
      some ⟨s.takeWhile p, [s.takeWhile p], s.dropWhile p⟩ := by
  obtain ⟨shorter, heq, -⟩ := runs_eq p s
  simp [match?, matchesAt, heq]

theorem takeWhile_isValueChar_eq_nil_iff {s : List Char} :
    s.takeWhile isValueChar = [] ↔ startsValue s = false := by
  cases s with
  | nil => simp [startsValue]
  | cons c s => cases h : isValueChar c <;> simp [startsValue, h]

theorem match?_value (atStart : Bool) (s : List Char) :
    value.match? atStart s = if startsValue s then some (valueMatch s) else none := by
  rw [value, match?_seq_group, findSome?_atLeastOne]
  · simp only [match?_many, takeWhile_isValueChar_eq_nil_iff]
    cases startsValue s <;> simp [valueMatch]
  · exact .inl (by simp [match?_many])

theorem findSome?_oneOf {α : Type} (ts : List String) (atStart : Bool) (s : List Char)
    (k : Match → Option α) :
    ((oneOf ts).matchesAt atStart s).findSome? k =
      ts.findSome? fun t =>
        if t.toList.isPrefixOf s then k ⟨t.toList, [], s.drop t.toList.length⟩ else none := by
  induction ts with
  | nil => rfl
  | cons t ts ih =>
    rw [oneOf, matchesAt, List.findSome?_append, ih, List.findSome?_cons, matchesAt]
    split
    · rw [List.findSome?_singleton]
      cases k ⟨t.toList, [], s.drop t.toList.length⟩ <;> rfl
    · rfl

/-- The match of an operator that the reader takes, with what it leaves behind. -/
def comparisonMatch (r : String × List Char) : Match :=
  ⟨r.1.toList ++ (valueMatch r.2).text, r.1.toList :: (valueMatch r.2).groups,
    (valueMatch r.2).rest⟩

theorem match?_comparison (atStart : Bool) (s : List Char) :
    comparison.match? atStart s = (readOperator? s).map comparisonMatch := by
  rw [comparison, match?_seq_group, findSome?_oneOf, readOperator?, List.map_findSome?]
  congr 1
  funext spelling
  simp only [match?_value, Function.comp_apply, readSpelling?]
  -- a spelling that leaves no value gives way to the next one
  cases spelling.toList.isPrefixOf s <;>
    cases startsValue (s.drop spelling.toList.length) <;> simp [comparisonMatch]

theorem match?_comparison_of_isFieldChar {c : Char} (h : isFieldChar c = true) (atStart : Bool)
    (s : List Char) : comparison.match? atStart (c :: s) = none := by
  rw [match?_comparison, Option.map_eq_none_iff, Option.eq_none_iff_forall_ne_some]
  rintro ⟨op, rest⟩ hr
  obtain ⟨hs, hop⟩ := readOperator?_eq_some_iff.mp hr
  have hstop := stopsAt_isFieldChar_of_mem_spellings hop.mem rest
  rw [← hs, stopsAt_cons, h] at hstop
  cases hstop

/-- The match of the part from the field on. -/
def predicateMatch? (s : List Char) : Option Match :=
  if s.takeWhile isFieldChar = [] then none
  else
    (readOperator? (s.dropWhile isFieldChar)).map fun r =>
      let m := comparisonMatch r
      ⟨s.takeWhile isFieldChar ++ m.text, s.takeWhile isFieldChar :: m.groups, m.rest⟩

theorem match?_predicate (atStart : Bool) (s : List Char) :
    predicate.match? atStart s = predicateMatch? s := by
  rw [predicate, match?_seq_group, findSome?_atLeastOne, predicateMatch?]
  · simp only [match?_comparison, Option.map_map, List.nil_append]
    rfl
  · -- a shorter field leaves one of its own characters, where no operator begins
    refine .inr fun m c rest hrest hc => ?_
    simp only [hrest, match?_comparison_of_isFieldChar hc, Option.map_none]

theorem match?_predicate_cons {c : Char} (h : isFieldChar c = false) (atStart : Bool)
    (s : List Char) : predicate.match? atStart (c :: s) = none := by
  rw [match?_predicate, predicateMatch?, if_pos (List.takeWhile_cons_of_neg (by simp [h]))]

/-- The match of the part from the opening parentheses on. -/
def operandMatch? (s : List Char) : Option Match :=
  (predicateMatch? (s.dropWhile (· == '('))).map fun m =>
    ⟨s.takeWhile (· == '(') ++ m.text, s.takeWhile (· == '(') :: m.groups, m.rest⟩

theorem match?_operand (atStart : Bool) (s : List Char) :
    operand.match? atStart s = operandMatch? s := by
  rw [operand, match?_seq_group, matchesAt, findSome?_runs, operandMatch?]
  · simp only [match?_predicate, List.nil_append]
  · refine .inr fun m c rest hrest hc => ?_
    obtain rfl : c = '(' := by simpa using hc
    simp only [hrest, match?_predicate_cons (c := '(') rfl, Option.map_none]

theorem operandMatch?_of_symbol {c : Char} (h : c = '&' ∨ c = '|') (s : List Char) :
    operandMatch? (c :: s) = none := by
  rcases h with rfl | rfl <;> simp [operandMatch?, predicateMatch?, isFieldChar]

theorem match?_term (atStart : Bool) (s : List Char) :
    term.match? atStart s =
      (readLogic? atStart s).bind fun r =>
        (operandMatch? r.2).map fun m =>
          ⟨r.1.toList ++ m.text, r.1.toList :: m.groups, m.rest⟩ := by
  rw [term, match?_seq_group]
  simp only [match?_operand]
  unfold readLogic?
  split
  · rename_i rest
    -- the empty alternative stands before `&`, where no term goes on
    cases atStart <;> cases h : operandMatch? rest <;>
      simp [matchesAt, h, operandMatch?_of_symbol]
  · rename_i rest
    cases atStart <;> cases h : operandMatch? rest <;>
      simp [matchesAt, h, operandMatch?_of_symbol]
  · rename_i hand hor
    cases s with
    | nil => cases atStart <;> simp [matchesAt]
    | cons c s =>
      have hc : c ≠ '&' ∧ c ≠ '|' := ⟨fun h => hand s (h ▸ rfl), fun h => hor s (h ▸ rfl)⟩
      cases atStart <;> simp [matchesAt, hc]

end Pattern

namespace Lexeme

/-- The parts of the term as they stand in the text. -/
def groups (x : Lexeme) : List (List Char) :=
  [x.logic.toList, List.replicate x.opens '(', x.field.toList, x.op.toList, x.value.toList,
    List.replicate x.closes ')']

/-- The term as a match of its pattern before `rest`. -/
def asMatch (x : Lexeme) (rest : List Char) : Pattern.Match :=
  ⟨x.text, x.groups, rest⟩

/-- The reader takes a term exactly where its pattern fits, and the parts are the groups of the
first match. -/
theorem match?_term (first : Bool) (s : List Char) :
    Pattern.term.match? first s = (read? first s).map fun r => r.1.asMatch r.2 := by
  rw [Pattern.match?_term, read?]
  cases readLogic? first s with
  | none => rfl
  | some r =>
    obtain ⟨logic, s⟩ := r
    simp only [Option.bind_some, Pattern.operandMatch?, Pattern.predicateMatch?]
    split
    · rename_i hnil
      rw [hnil]
      rfl
    · rename_i hne
      cases hfield : (s.dropWhile (· == '(')).takeWhile isFieldChar with
      | nil => exact absurd hfield hne
      | cons c field =>
        cases readOperator? ((s.dropWhile (· == '(')).dropWhile isFieldChar) with
        | none => rfl
        | some r =>
          obtain ⟨op, afterOp⟩ := r
          simp [asMatch, text, groups, Pattern.comparisonMatch, Pattern.valueMatch,
            replicate_takeWhile_length]

end Lexeme
end UrlFilter
