import UrlFilter.Proofs.Token.Scan
import UrlFilter.Query.Parse

/-! The reading of a query in one pass. The recursion of `readGroup` is traded for a stack of
open lists, and the pass goes over the tokens once, from left to right: a token opens its
groups, adds its term to the innermost list and closes its groups.

The main statement is `readGroup_eq_run`: the pass has the outcome of the recursion, whether it
succeeds or fails and with whichever error. What is proved of a reading by induction on its
tokens is proved of `run`. -/
namespace UrlFilter

/-- The lists of terms that are open. -/
structure Stack where
  /-- The innermost list. -/
  top : Filter := []
  /-- The lists around it, the nearest first, each with the joining of the group that is open
  in it. -/
  below : List (Filter × Connective) := []
  deriving DecidableEq, Repr

namespace Stack

/-- The number of open groups. -/
def height (s : Stack) : Nat :=
  s.below.length

/-- Opens `count` groups before a token. -/
def openGroups (maxDepth : Nat) (token : Token) : Nat → Stack → Except QueryError Stack
  | 0, s => .ok s
  | count + 1, s =>
    match token.link s.top with
    | .error e => .error e
    | .ok link =>
      if maxDepth ≤ s.height then .error (.tooDeep maxDepth)
      else openGroups maxDepth token count ⟨[], (s.top, link) :: s.below⟩

/-- Closes `count` groups behind a token that stops at `position`. -/
def closeGroups (position : Nat) : Nat → Stack → Except QueryError Stack
  | 0, s => .ok s
  | count + 1, ⟨terms, below⟩ =>
    match below with
    | [] => .error (.unbalanced position)
    | (before, link) :: below =>
      closeGroups position count ⟨before ++ [Term.group link terms.collapse], below⟩

/-- Adds what a token says to the innermost list. The token is consumed already. -/
def addTerm (p : Progress) (token : Token) (s : Stack) : Except QueryError (Stack × Progress) :=
  match token.link s.top with
  | .error e => .error e
  | .ok link =>
    match token.operator with
    | .error e => .error e
    | .ok op =>
      match p.readTerm s.height s.top link op token.toLexeme with
      | .error e => .error e
      | .ok (terms, p) => .ok (⟨terms, s.below⟩, p)

/-- Reads one token, behind which the tokens `rest` come. -/
def read (maxDepth : Nat) (token : Token) (rest : List Token) (s : Stack) (p : Progress) :
    Except QueryError (Stack × Progress) :=
  match s.openGroups maxDepth token token.opens with
  | .error e => .error e
  | .ok s =>
    match s.addTerm (p.consume token rest) token with
    | .error e => .error e
    | .ok (s, p) =>
      match s.closeGroups p.position p.closes with
      | .error e => .error e
      | .ok s => .ok (s, { p with closes := 0 })

/-- Reads tokens up to the end of a text of `length` bytes, where no group may be open. -/
def run (maxDepth length : Nat) : List Token → Stack → Progress → Except QueryError Reading
  | [], s, p => if s.height = 0 then .ok (s.top, p) else .error (.unbalanced length)
  | token :: rest, s, p =>
    match s.read maxDepth token rest p with
    | .error e => .error e
    | .ok (s, p) => run maxDepth length rest s p

/-! ## What the recursion still has to do

The lists below the innermost one stand for the calls that have not returned. `resume` is what
they do with the terms that the innermost call hands back. -/

/-- Goes on in the lists `below` with the terms of a group that was closed in the first. -/
def resume (maxDepth length : Nat) :
    List (Filter × Connective) → Reading → Except QueryError Reading
  | [], r => .ok r
  | (before, link) :: below, (terms, p) =>
    let terms := before ++ [Term.group link terms.collapse]
    if 0 < p.closes then
      if below.length = 0 then .error (.unbalanced p.position)
      else resume maxDepth length below (terms, p.leave)
    else
      match readGroup maxDepth length below.length terms p with
      | .error e => .error e
      | .ok r => resume maxDepth length below r

/-- The outcome of the recursion from the middle of a reading. -/
def outcome (maxDepth length : Nat) (s : Stack) (p : Progress) : Except QueryError Reading :=
  match readGroup maxDepth length s.height s.top p with
  | .error e => .error e
  | .ok r => resume maxDepth length s.below r

/-- The outcome from behind an entry, where a `)` may close the list. -/
def outcomeAfter (maxDepth length : Nat) (s : Stack) (p : Progress) :
    Except QueryError Reading :=
  if 0 < p.closes then
    if s.height = 0 then .error (.unbalanced p.position)
    else resume maxDepth length s.below (s.top, p.leave)
  else s.outcome maxDepth length p

variable {maxDepth length : Nat} {s : Stack} {p : Progress} {token : Token} {rest : List Token}

theorem outcome_nil (h : p.tokens = []) :
    s.outcome maxDepth length p =
      if s.height = 0 then .ok (s.top, p) else .error (.unbalanced length) := by
  obtain ⟨top, below⟩ := s
  rw [outcome, readGroup_nil h]
  cases below with
  | nil => rfl
  | cons frame below => rfl

/-- What a call does once it has read an entry, the calls around it included. -/
theorem outcomeAfter_eq (terms : Filter) (below : List (Filter × Connective)) (p : Progress) :
    outcomeAfter maxDepth length ⟨terms, below⟩ p =
      match (if 0 < p.closes then
          if below.length = 0 then .error (.unbalanced p.position) else .ok (terms, p.leave)
        else readGroup maxDepth length below.length terms p :
          Except QueryError Reading) with
      | .error e => .error e
      | .ok r => resume maxDepth length below r := by
  rw [outcomeAfter]
  by_cases hc : 0 < p.closes
  · rw [if_pos hc, if_pos hc]
    by_cases h0 : below.length = 0
    · rw [if_pos h0, if_pos (show height ⟨terms, below⟩ = 0 from h0)]
    · rw [if_neg h0, if_neg (show ¬ height ⟨terms, below⟩ = 0 from h0)]
  · rw [if_neg hc, if_neg hc]
    rfl

/-- A parenthesis that is left over opens a group. -/
theorem outcome_of_opens (h : p.tokens = token :: rest) (ho : 0 < p.opens) :
    s.outcome maxDepth length p =
      match token.link s.top with
      | .error e => .error e
      | .ok link =>
        if maxDepth ≤ s.height then .error (.tooDeep maxDepth)
        else outcome maxDepth length ⟨[], (s.top, link) :: s.below⟩ p.enter := by
  rw [outcome, readGroup_cons h, readEntry]
  cases token.link s.top with
  | error e => rfl
  | ok link =>
    simp only [if_pos ho]
    by_cases hd : maxDepth ≤ s.height
    · simp only [if_pos hd]
    · simp only [if_neg hd]
      rw [outcome]
      have hh : height ⟨[], (s.top, link) :: s.below⟩ = s.height + 1 := rfl
      rw [hh]
      -- the call that opens the group goes on with what the inner call hands back
      cases readGroup maxDepth length (s.height + 1) [] p.enter with
      | error e => rfl
      | ok r => exact (outcomeAfter_eq _ s.below r.2).symm

/-- With no parenthesis left over, the token says what is added. -/
theorem outcome_of_no_opens (h : p.tokens = token :: rest) (ho : ¬ 0 < p.opens) :
    s.outcome maxDepth length p =
      match s.addTerm (p.consume token rest) token with
      | .error e => .error e
      | .ok (s, p) => outcomeAfter maxDepth length s p := by
  rw [outcome, readGroup_cons h, readEntry, addTerm]
  cases token.link s.top with
  | error e => rfl
  | ok link =>
    simp only [if_neg ho]
    cases token.operator with
    | error e => rfl
    | ok op =>
      dsimp only
      cases (p.consume token rest).readTerm s.height s.top link op token.toLexeme with
      | error e => rfl
      | ok r => exact (outcomeAfter_eq r.1 s.below r.2).symm

/-! ## One token -/

/-- All the parentheses before a token open their groups in turn. -/
theorem outcome_eq_openGroups (h : p.tokens = token :: rest) :
    s.outcome maxDepth length p =
      match s.openGroups maxDepth token p.opens with
      | .error e => .error e
      | .ok s => s.outcome maxDepth length { p with opens := 0 } := by
  obtain ⟨tokens, opens, closes, covered, position, directives⟩ := p
  induction opens generalizing s with
  | zero => rfl
  | succ count ih =>
    rw [outcome_of_opens h (Nat.succ_pos count)]
    dsimp only
    rw [openGroups]
    cases token.link s.top with
    | error e => rfl
    | ok link =>
      dsimp only
      by_cases hd : maxDepth ≤ s.height
      · rw [if_pos hd, if_pos hd]
      · rw [if_neg hd, if_neg hd]
        exact ih h

/-- All the parentheses behind a token close their groups in turn. -/
theorem outcomeAfter_eq_closeGroups (s : Stack) (p : Progress) :
    s.outcomeAfter maxDepth length p =
      match s.closeGroups p.position p.closes with
      | .error e => .error e
      | .ok s => s.outcome maxDepth length { p with closes := 0 } := by
  obtain ⟨tokens, opens, closes, covered, position, directives⟩ := p
  -- each parenthesis hands the innermost list over to the one around it
  induction closes generalizing s with
  | zero => rfl
  | succ count ih =>
    obtain ⟨terms, below⟩ := s
    rw [outcomeAfter, if_pos (Nat.succ_pos count)]
    cases below with
    | nil => rfl
    | cons frame below => exact ih ⟨frame.1 ++ [Term.group frame.2 terms.collapse], below⟩

/-- The recursion goes on from one token to the next as the pass does. -/
theorem outcome_cons (h : p.tokens = token :: rest) (ho : p.opens = token.opens) :
    s.outcome maxDepth length p =
      match s.read maxDepth token rest p with
      | .error e => .error e
      | .ok (s, p) => s.outcome maxDepth length p := by
  rw [outcome_eq_openGroups h, ho, read]
  cases s.openGroups maxDepth token token.opens with
  | error e => rfl
  | ok s =>
    dsimp only
    have h0 : ({ p with opens := 0 } : Progress).tokens = token :: rest := h
    rw [outcome_of_no_opens h0 (Nat.lt_irrefl 0)]
    have hp : Progress.consume { p with opens := 0 } token rest = p.consume token rest := rfl
    rw [hp]
    cases s.addTerm (p.consume token rest) token with
    | error e => rfl
    | ok r =>
      dsimp only
      rw [outcomeAfter_eq_closeGroups]
      cases r.1.closeGroups r.2.position r.2.closes with
      | error e => rfl
      | ok s => rfl

/-! ## What a token leaves behind -/

theorem readTerm_eq_ok {p q : Progress} {depth : Nat} {before terms : Filter}
    {link : Connective} {op : Operator} {x : Lexeme}
    (h : p.readTerm depth before link op x = .ok (terms, q)) :
    (depth = 0 ∧ ∃ d, p.directives.update? x = .ok (some d) ∧ terms = before ∧
        q = { p with directives := d }) ∨
      ((depth = 0 → p.directives.update? x = .ok none) ∧ q = p ∧
        terms = before ++ [Term.predicate link ⟨op, x.field, x.value⟩]) := by
  unfold Progress.readTerm at h
  dsimp only at h
  split at h
  · rename_i h0
    split at h
    · simp at h
    · rename_i d hd
      simp only [Except.ok.injEq, Prod.mk.injEq] at h
      exact .inl ⟨h0, d, hd, h.1.symm, h.2.symm⟩
    · rename_i hd
      simp only [Except.ok.injEq, Prod.mk.injEq] at h
      exact .inr ⟨fun _ => hd, h.2.symm, h.1.symm⟩
  · rename_i h0
    simp only [Except.ok.injEq, Prod.mk.injEq] at h
    exact .inr ⟨fun hd => absurd hd h0, h.2.symm, h.1.symm⟩

/-- Of the progress only the directives depend on what the token says. -/
theorem progress_of_readTerm {p q : Progress} {depth : Nat} {before terms : Filter}
    {link : Connective} {op : Operator} {x : Lexeme}
    (h : p.readTerm depth before link op x = .ok (terms, q)) :
    ∃ d, q = { p with directives := d } := by
  rcases readTerm_eq_ok h with ⟨-, d, -, -, hq⟩ | ⟨-, hq, -⟩
  · exact ⟨d, hq⟩
  · exact ⟨p.directives, hq⟩

/-- The parts of a token that is read. -/
theorem read_eq_ok {t : Stack} {q : Progress}
    (h : s.read maxDepth token rest p = .ok (t, q)) :
    ∃ s₁ s₂ q₁, s.openGroups maxDepth token token.opens = .ok s₁ ∧
      s₁.addTerm (p.consume token rest) token = .ok (s₂, q₁) ∧
      s₂.closeGroups q₁.position q₁.closes = .ok t ∧ q = { q₁ with closes := 0 } := by
  unfold read at h
  split at h
  · simp at h
  · rename_i s₁ h₁
    split at h
    · simp at h
    · rename_i s₂ q₁ h₂
      split at h
      · simp at h
      · rename_i s₃ h₃
        simp only [Except.ok.injEq, Prod.mk.injEq] at h
        obtain ⟨rfl, rfl⟩ := h
        exact ⟨s₁, s₂, q₁, h₁, h₂, h₃, rfl⟩

/-- The parts of a term that is added. -/
theorem addTerm_eq_ok {t : Stack} {q : Progress} (h : s.addTerm p token = .ok (t, q)) :
    ∃ link op terms, token.link s.top = .ok link ∧ token.operator = .ok op ∧
      p.readTerm s.height s.top link op token.toLexeme = .ok (terms, q) ∧
      t = ⟨terms, s.below⟩ := by
  unfold addTerm at h
  split at h
  · simp at h
  · rename_i link hl
    split at h
    · simp at h
    · rename_i op ho
      split at h
      · simp at h
      · rename_i terms q' hr
        simp only [Except.ok.injEq, Prod.mk.injEq] at h
        obtain ⟨rfl, rfl⟩ := h
        exact ⟨link, op, terms, hl, ho, hr, rfl⟩

theorem progress_of_addTerm {t : Stack} {q : Progress}
    (h : s.addTerm p token = .ok (t, q)) : ∃ d, q = { p with directives := d } := by
  obtain ⟨link, op, terms, -, -, hr, -⟩ := addTerm_eq_ok h
  exact progress_of_readTerm hr

theorem progress_of_read {t : Stack} {q : Progress}
    (h : s.read maxDepth token rest p = .ok (t, q)) :
    ∃ d, q = { p.consume token rest with closes := 0, directives := d } := by
  obtain ⟨s₁, s₂, q₁, -, h₂, -, rfl⟩ := read_eq_ok h
  obtain ⟨d, rfl⟩ := progress_of_addTerm h₂
  exact ⟨d, rfl⟩

/-! ## The whole pass -/

/-- The recursion from the middle of a reading ends as the pass over the tokens that are
left. -/
theorem outcome_eq_run (ho : p.opens = Progress.opensOf p.tokens) :
    s.outcome maxDepth length p = s.run maxDepth length p.tokens p := by
  induction hts : p.tokens generalizing s p with
  | nil => exact outcome_nil hts
  | cons token rest ih =>
    rw [outcome_cons hts (by rw [ho, hts, Progress.opensOf]), run]
    cases hr : s.read maxDepth token rest p with
    | error e => rfl
    | ok r =>
      obtain ⟨d, hq⟩ := progress_of_read hr
      -- behind a token all parentheses of the next one are still to be opened
      have hts' : r.2.tokens = rest := by rw [hq]; rfl
      have ho' : r.2.opens = Progress.opensOf r.2.tokens := by rw [hq]; rfl
      exact ih ho' hts'

end Stack

/-- The recursion and the pass have the same outcome. -/
theorem readGroup_eq_run (maxDepth length : Nat) (tokens : List Token) :
    readGroup maxDepth length 0 [] (.start tokens) =
      Stack.run maxDepth length tokens {} (.start tokens) := by
  have h : Stack.outcome maxDepth length {} (.start tokens) =
      Stack.run maxDepth length tokens {} (.start tokens) := Stack.outcome_eq_run rfl
  rw [← h]
  show _ = (match readGroup maxDepth length 0 [] (.start tokens) with
    | .error e => .error e
    | .ok r => .ok r : Except QueryError Reading)
  cases readGroup maxDepth length 0 [] (.start tokens) with
  | error e => rfl
  | ok r => rfl

/-- A reading covers the bytes of its tokens. -/
theorem Stack.covered_of_run {maxDepth length : Nat} {tokens : List Token} {s : Stack}
    {p : Progress} {r : Reading} (h : s.run maxDepth length tokens p = .ok r) :
    r.2.covered = p.covered + Token.covered tokens := by
  induction tokens generalizing s p with
  | nil =>
    rw [run] at h
    split at h
    · cases h
      rfl
    · simp at h
  | cons token rest ih =>
    rw [run] at h
    split at h
    · simp at h
    · rename_i t q hr
      obtain ⟨d, rfl⟩ := progress_of_read hr
      rw [ih h, Token.covered, ← Nat.add_assoc]
      rfl

namespace Query

theorem scan_empty : Token.scan "" = [] :=
  Token.scanFrom_nil 0

theorem tokens_eq (s : String) :
    tokens s = if s ≠ "" ∧ Token.scan s = [] then .error .noTerm else .ok (Token.scan s) := by
  unfold tokens
  by_cases hs : s = ""
  · subst hs
    rw [scan_empty]
    rfl
  · rw [if_neg (by simpa using hs)]
    cases Token.scan s with
    | nil => simp [hs]
    | cons token rest => simp

/-- Parsing as one pass over the tokens of the text. -/
theorem parse_eq (s : String) (maxDepth : Nat) :
    parse s maxDepth =
      if s ≠ "" ∧ Token.scan s = [] then .error .noTerm
      else
        match Stack.run maxDepth (Text.byteLength s.toList) (Token.scan s) {}
            (.start (Token.scan s)) with
        | .error e => .error e
        | .ok (filter, p) =>
          if Token.covered (Token.scan s) = Text.byteLength s.toList then
            .ok { p.directives with filter }
          else .error (.uncovered (Token.covered (Token.scan s)) (Text.byteLength s.toList)) := by
  unfold parse
  rw [tokens_eq]
  by_cases hs : s ≠ "" ∧ Token.scan s = []
  · rw [if_pos hs, if_pos hs]
  · rw [if_neg hs, if_neg hs]
    dsimp only
    rw [readGroup_eq_run]
    cases hr : Stack.run maxDepth (Text.byteLength s.toList) (Token.scan s) {}
        (.start (Token.scan s)) with
    | error e => rfl
    | ok r =>
      obtain ⟨filter, p⟩ := r
      have hc : p.covered = Token.covered (Token.scan s) := by
        rw [Stack.covered_of_run hr]
        exact Nat.zero_add _
      dsimp only
      rw [hc]

/-- The empty text asks for nothing. -/
theorem parse_empty (maxDepth : Nat) : parse "" maxDepth = .ok {} := by
  rw [parse_eq, scan_empty]
  simp [Stack.run, Stack.height, Token.covered, Progress.start]

theorem parse_eq_ok_iff {s : String} {maxDepth : Nat} {q : Query} :
    parse s maxDepth = .ok q ↔
      (s = "" ∨ Token.scan s ≠ []) ∧
        Token.covered (Token.scan s) = Text.byteLength s.toList ∧
        ∃ p, Stack.run maxDepth (Text.byteLength s.toList) (Token.scan s) {}
            (.start (Token.scan s)) = .ok (q.filter, p) ∧
          q = { p.directives with filter := q.filter } := by
  rw [parse_eq]
  by_cases hs : s ≠ "" ∧ Token.scan s = []
  · rw [if_pos hs]
    simp [hs]
  · rw [if_neg hs]
    have hs' : s = "" ∨ Token.scan s ≠ [] := by
      by_cases h : s = ""
      · exact .inl h
      · exact .inr fun h' => hs ⟨h, h'⟩
    constructor
    · intro h
      split at h
      · simp at h
      · rename_i filter p hr
        split at h
        · rename_i hc
          cases h
          exact ⟨hs', hc, p, hr, rfl⟩
        · simp at h
    · rintro ⟨-, hc, p, hr, hq⟩
      rw [hr]
      dsimp only
      rw [if_pos hc, ← hq]

end Query
end UrlFilter
