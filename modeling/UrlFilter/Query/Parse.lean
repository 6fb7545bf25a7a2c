import UrlFilter.Query
import UrlFilter.Query.Error
import UrlFilter.Text.Count
import UrlFilter.Text.Percent
import UrlFilter.Token.Scan

/-! Parsing: the query that a text says. The tokens of the text are read from left to right.
Each `(` opens a group, joined to what precedes it as the term behind it is joined, and each
`)` closes one. Parentheses that hold nothing but a group in parentheses add no level. Terms
named `limit`, `offset`, `sort` and `option` are directives where they stand outside all
parentheses, and predicates elsewhere. At the end, every byte of the text must belong to a term.

`Progress` is the state of the reading; `Progress.work` bounds the steps that are left, and
`readGroup` hands back with its result that the bound has not grown. -/
namespace UrlFilter

/-- The greatest nesting of parentheses where nothing else is asked for. -/
def Query.defaultMaxDepth : Nat := 32

/-- The directives after a term, if the term is one; its operator does not matter. -/
def Directives.update? (d : Directives) (x : Lexeme) : Except QueryError (Option Directives) :=
  if x.field = "limit" then
    match Text.count? x.value with
    | some n => .ok (some { d with limit := n })
    | none => .error (.notACount x.field x.value)
  else if x.field = "offset" then
    match Text.count? x.value with
    | some n => .ok (some { d with offset := n })
    | none => .error (.notACount x.field x.value)
  else if x.field = "sort" then
    .ok (some { d with sort := d.sort ++ SortKey.ofList x.value })
  else if x.field = "option" then
    .ok (some { d with options := d.options.insertAll (listEntries x.value) })
  else .ok none

/-- The state of a reading. -/
structure Progress where
  /-- The tokens that are not read yet. -/
  tokens : List Token
  /-- The `(` of the next token that have not opened a group yet. -/
  opens : Nat
  /-- The `)` of the last token read that have not closed a group yet. -/
  closes : Nat := 0
  /-- The number of bytes of the tokens read. -/
  covered : Nat := 0
  /-- Where the last token read stops. -/
  position : Nat := 0
  directives : Directives := {}
  deriving DecidableEq, Repr

namespace Progress

/-- The parentheses that open before the first of these tokens. -/
def opensOf : List Token → Nat
  | [] => 0
  | token :: _ => token.opens

/-- The state before anything is read. -/
def start (tokens : List Token) : Progress :=
  { tokens, opens := opensOf tokens }

/-- The state after a group is opened. -/
def enter (p : Progress) : Progress :=
  { p with opens := p.opens - 1 }

/-- The state after a group is closed. -/
def leave (p : Progress) : Progress :=
  { p with closes := p.closes - 1 }

/-- The state after `token` is read, when the tokens `rest` come next. -/
def consume (p : Progress) (token : Token) (rest : List Token) : Progress :=
  { p with
    tokens := rest
    opens := opensOf rest
    closes := token.closes
    covered := p.covered + token.span.length
    position := token.span.stop }

/-- The parentheses that open before all of these tokens. -/
def totalOpens : List Token → Nat
  | [] => 0
  | token :: rest => token.opens + totalOpens rest

/-- How many tokens and opening parentheses are still to be read. -/
def work (p : Progress) : Nat :=
  p.tokens.length + p.opens + totalOpens p.tokens.tail

@[simp] theorem work_leave (p : Progress) : p.leave.work = p.work := rfl

@[simp] theorem work_withDirectives (p : Progress) (d : Directives) :
    { p with directives := d }.work = p.work := rfl

theorem work_enter {p : Progress} (h : 0 < p.opens) : p.enter.work < p.work := by
  simp only [work, enter]
  omega

theorem work_consume {p : Progress} {token : Token} {rest : List Token}
    (h : p.tokens = token :: rest) : (p.consume token rest).work < p.work := by
  cases rest with
  | nil =>
    simp only [work, consume, h, opensOf, totalOpens, List.length_cons, List.length_nil,
      List.tail_cons, List.tail_nil]
    omega
  | cons next rest =>
    simp only [work, consume, h, opensOf, totalOpens, List.length_cons, List.tail_cons]
    omega

end Progress

/-- How a token joins its term to the terms `before` it in the same list. -/
def Lexeme.link (x : Lexeme) (before : Filter) : Except QueryError Connective :=
  if before.isEmpty then .ok .start
  else
    match Connective.ofSymbol? x.logic with
    | some link => .ok link
    | none => .error (.unknownLogic x.logic)

/-- The operator that a token spells. -/
def Lexeme.operator (x : Lexeme) : Except QueryError Operator :=
  match Operator.ofSpelling? x.op with
  | some op => .ok op
  | none => .error (.unknownOperator x.op)

/-- Terms read so far and the state after them. -/
abbrev Reading := Filter × Progress

/-- What a token that opens no group adds to the terms `before` it: a predicate, or at the top
level perhaps a directive. The token is read already. -/
def Progress.readTerm (p : Progress) (depth : Nat) (before : Filter) (link : Connective)
    (op : Operator) (x : Lexeme) : Except QueryError Reading :=
  let terms := before ++ [Term.predicate link ⟨op, x.field, x.value⟩]
  if depth = 0 then
    match p.directives.update? x with
    | .error e => .error e
    | .ok (some d) => .ok (before, { p with directives := d })
    | .ok none => .ok (terms, p)
  else .ok (terms, p)

theorem Progress.work_of_readTerm {p : Progress} {depth : Nat} {before : Filter}
    {link : Connective} {op : Operator} {x : Lexeme} {r : Reading}
    (h : p.readTerm depth before link op x = .ok r) : r.2.work = p.work := by
  unfold readTerm at h
  simp only at h
  split at h
  · split at h <;> simp at h <;> subst h <;> rfl
  · simp at h
    subst h
    rfl

/-- `readGroup`, with the bound on the steps left that ends its recursion. -/
def readGroupBounded (maxDepth length depth : Nat) (before : Filter) (p : Progress) :
    Except QueryError { r : Reading // r.2.work ≤ p.work } :=
  match _h : p.tokens with
  | [] =>
    if depth = 0 then .ok ⟨(before, p), Nat.le_refl _⟩ else .error (.unbalanced length)
  | token :: rest =>
    let item : Except QueryError { r : Reading // r.2.work < p.work } :=
      match token.link before with
      | .error e => .error e
      | .ok link =>
        if _ho : 0 < p.opens then
          if maxDepth ≤ depth then .error (.tooDeep maxDepth)
          else
            have := Progress.work_enter _ho
            match readGroupBounded maxDepth length (depth + 1) [] p.enter with
            | .error e => .error e
            | .ok ⟨(terms, q), _hq⟩ =>
              .ok ⟨(before ++ [Term.group link terms.collapse], q), Nat.lt_of_le_of_lt _hq this⟩
        else
          match token.operator with
          | .error e => .error e
          | .ok op =>
            match _hr : (p.consume token rest).readTerm depth before link op token.toLexeme with
            | .error e => .error e
            | .ok r =>
              .ok ⟨r, Progress.work_of_readTerm _hr ▸ Progress.work_consume _h⟩
    match item with
    | .error e => .error e
    | .ok ⟨(terms, q), _hq⟩ =>
      if 0 < q.closes then
        if depth = 0 then .error (.unbalanced q.position)
        else .ok ⟨(terms, q.leave), Nat.le_of_lt _hq⟩
      else
        match readGroupBounded maxDepth length depth terms q with
        | .error e => .error e
        | .ok ⟨r, hr⟩ => .ok ⟨r, Nat.le_trans hr (Nat.le_of_lt _hq)⟩
termination_by p.work

/-- Reads the terms of a list inside `depth` parentheses, of which the terms `before` are read,
until its `)` or the end of a text of `length` bytes. -/
def readGroup (maxDepth length depth : Nat) (before : Filter) (p : Progress) :
    Except QueryError Reading :=
  (readGroupBounded maxDepth length depth before p).map Subtype.val

/-- Reads one entry of a list: a group if a `(` is left over, and else what the token says. -/
def readEntry (maxDepth length depth : Nat) (before : Filter) (p : Progress) (token : Token)
    (rest : List Token) : Except QueryError Reading :=
  match token.link before with
  | .error e => .error e
  | .ok link =>
    if 0 < p.opens then
      if maxDepth ≤ depth then .error (.tooDeep maxDepth)
      else
        match readGroup maxDepth length (depth + 1) [] p.enter with
        | .error e => .error e
        | .ok (terms, q) => .ok (before ++ [Term.group link terms.collapse], q)
    else
      match token.operator with
      | .error e => .error e
      | .ok op => (p.consume token rest).readTerm depth before link op token.toLexeme

/-- The end of the tokens ends the list at the top level and nowhere else. -/
theorem readGroup_nil {maxDepth length depth : Nat} {before : Filter} {p : Progress}
    (h : p.tokens = []) :
    readGroup maxDepth length depth before p =
      if depth = 0 then .ok (before, p) else .error (.unbalanced length) := by
  rw [readGroup, readGroupBounded]
  split
  · split <;> rfl
  · simp_all

/-- Where a token is left, one entry is read, and then a `)` closes the list or the list goes
on. -/
theorem readGroup_cons {maxDepth length depth : Nat} {before : Filter} {p : Progress}
    {token : Token} {rest : List Token} (h : p.tokens = token :: rest) :
    readGroup maxDepth length depth before p =
      match readEntry maxDepth length depth before p token rest with
      | .error e => .error e
      | .ok (terms, q) =>
        if 0 < q.closes then
          if depth = 0 then .error (.unbalanced q.position) else .ok (terms, q.leave)
        else readGroup maxDepth length depth terms q := by
  rw [readGroup, readGroupBounded]
  split
  · simp_all
  · rename_i token' rest' h'
    obtain ⟨rfl, rfl⟩ : token' = token ∧ rest' = rest := by simp_all
    unfold readEntry
    cases token'.link before with
    | error e => rfl
    | ok link =>
      by_cases ho : 0 < p.opens
      · by_cases hd : maxDepth ≤ depth
        · simp [ho, hd, Except.map]
        · unfold readGroup
          cases readGroupBounded maxDepth length (depth + 1) [] p.enter with
          | error e => simp [ho, hd, Except.map]
          | ok r =>
            obtain ⟨⟨terms, q⟩, hq⟩ := r
            by_cases hc : 0 < q.closes
            · by_cases h0 : depth = 0
              · subst h0
                simp [ho, hd, hc, Except.map]
              · simp [ho, hd, hc, h0, Except.map]
            · cases hn : readGroupBounded maxDepth length depth
                  (before ++ [Term.group link terms.collapse]) q <;>
                simp [ho, hd, hc, hn, Except.map]
      · cases token'.operator with
        | error e => simp [ho, Except.map]
        | ok op =>
          simp only [ho, dite_false, ite_false]
          split
          · rename_i e he
            split at he
            · rename_i hr
              simp [hr, Except.map] at he ⊢
              exact he.symm
            · simp at he
          · rename_i terms q hq he
            split at he
            · simp at he
            · rename_i r hr
              simp only [Except.ok.injEq, Subtype.mk.injEq] at he
              subst he
              by_cases hc : 0 < q.closes
              · by_cases h0 : depth = 0
                · subst h0
                  simp [hr, hc, Except.map]
                · simp [hr, hc, h0, Except.map]
              · cases hn : readGroupBounded maxDepth length depth terms q <;>
                  simp [hr, hc, hn, readGroup, Except.map]

theorem work_le_of_readGroup {maxDepth length depth : Nat} {before : Filter} {p : Progress}
    {r : Reading} (h : readGroup maxDepth length depth before p = .ok r) :
    r.2.work ≤ p.work := by
  unfold readGroup at h
  cases hr : readGroupBounded maxDepth length depth before p with
  | error e => simp [hr, Except.map] at h
  | ok s =>
    simp [hr, Except.map] at h
    exact h ▸ s.2

theorem work_lt_of_readEntry {maxDepth length depth : Nat} {before : Filter} {p : Progress}
    {token : Token} {rest : List Token} {r : Reading} (h : p.tokens = token :: rest)
    (hr : readEntry maxDepth length depth before p token rest = .ok r) :
    r.2.work < p.work := by
  unfold readEntry at hr
  split at hr
  · simp at hr
  · split at hr
    · rename_i ho
      split at hr
      · simp at hr
      · split at hr
        · simp at hr
        · rename_i hg
          have hle := work_le_of_readGroup hg
          have hlt := Progress.work_enter ho
          simp only [Except.ok.injEq] at hr
          subst hr
          exact Nat.lt_of_le_of_lt hle hlt
    · split at hr
      · simp at hr
      · rw [Progress.work_of_readTerm hr]
        exact Progress.work_consume h

namespace Query

/-- The tokens of a text, of which there must be one unless the text is empty. -/
def tokens (s : String) : Except QueryError (List Token) :=
  if s.isEmpty then .ok []
  else
    match Token.scan s with
    | [] => .error .noTerm
    | token :: rest => .ok (token :: rest)

/-- The query that a text says. -/
def parse (s : String) (maxDepth : Nat := defaultMaxDepth) : Except QueryError Query :=
  match tokens s with
  | .error e => .error e
  | .ok tokens =>
    let length := Text.byteLength s.toList
    match readGroup maxDepth length 0 [] (.start tokens) with
    | .error e => .error e
    | .ok (filter, p) =>
      if p.covered = length then .ok { p.directives with filter }
      else .error (.uncovered p.covered length)

/-- The query that a percent-encoded text says. -/
def parseRaw (s : String) (maxDepth : Nat := defaultMaxDepth) : Except QueryError Query :=
  match Text.Percent.decode s with
  | .error fault => .error (.notUtf8 fault)
  | .ok text => parse text maxDepth

end Query
end UrlFilter
