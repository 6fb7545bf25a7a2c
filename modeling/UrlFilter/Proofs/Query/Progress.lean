import UrlFilter.Proofs.Query.OnePass
import UrlFilter.Proofs.Token.Layout

/-! The state of a reading. A list is read by a loop that either opens a group, by a call of its
own, or reads a token, and the counts of the state are handed from call to call. `Progress.AtRound`
says what they are where a round of the loop begins, and `Progress.AtEntryEnd` what they are behind
an entry: the tokens that are read settle them, as the parentheses behind a token are all handled
before those of the next one. `atEntryEnd_of_readEntry` says that an entry leads from the one to the
other. -/
namespace UrlFilter

variable {maxDepth length depth : Nat} {before terms : Filter} {p q : Progress} {token : Token}
  {rest tokens read : List Token}

/-! ## What a call does -/

/-- An induction over the calls that a call makes: the one for the group that it opens, and the one
behind the entry that it reads. -/
theorem call_induction {motive : Nat → Filter → Progress → Prop} (maxDepth length : Nat)
    (call : ∀ depth before p,
      (0 < p.opens → motive (depth + 1) [] p.enter) →
      (∀ token rest terms q, p.tokens = token :: rest →
        readEntry maxDepth length depth before p token rest = .ok (terms, q) →
          motive depth terms q) →
      motive depth before p)
    (depth : Nat) (before : Filter) (p : Progress) : motive depth before p := by
  induction hn : p.work using Nat.strongRecOn generalizing depth before p with
  | ind n ih =>
    subst hn
    exact call depth before p (fun ho => ih _ (Progress.work_enter ho) _ _ _ rfl)
      fun token rest terms q hts hentry => ih _ (work_lt_of_readEntry hts hentry) _ _ _ rfl

/-- An entry is a group that is read by a call of its own, or else the term of a token. -/
theorem readEntry_eq_ok
    (h : readEntry maxDepth length depth before p token rest = .ok (terms, q)) :
    (((token.link before).isOk ∧ 0 < p.opens ∧ depth < maxDepth) ∧
        ∃ inner, readGroup maxDepth length (depth + 1) [] p.enter = .ok (inner, q)) ∨
      (p.opens = 0 ∧ ∃ d, q = { p.consume token rest with directives := d }) := by
  unfold readEntry at h
  split at h
  · cases h
  · rename_i link hlink
    have hisOk : (token.link before).isOk := by rw [hlink]; rfl
    split at h
    · rename_i ho
      split at h
      · cases h
      · rename_i hdepth
        split at h
        · cases h
        · rename_i inner q' hinner
          cases h
          exact .inl ⟨⟨hisOk, ho, Nat.lt_of_not_le hdepth⟩, inner, hinner⟩
    · rename_i ho
      split at h
      · cases h
      · exact .inr ⟨Nat.eq_zero_of_not_pos ho, Stack.progress_of_readTerm h⟩

/-- A list is read to the end of the tokens at the top level, and else to the entry that closes it.
-/
theorem readGroup_eq_ok {reading : Reading}
    (h : readGroup maxDepth length depth before p = .ok reading) :
    (p.tokens = [] ∧ depth = 0 ∧ reading = (before, p)) ∨
      ∃ token rest terms q, p.tokens = token :: rest ∧
        readEntry maxDepth length depth before p token rest = .ok (terms, q) ∧
        ((0 < q.closes ∧ depth ≠ 0 ∧ reading = (terms, q.leave)) ∨
          (q.closes = 0 ∧ readGroup maxDepth length depth terms q = .ok reading)) := by
  cases hts : p.tokens with
  | nil =>
    rw [readGroup_nil hts] at h
    split at h
    · rename_i h0
      cases h
      exact .inl ⟨rfl, h0, rfl⟩
    · cases h
  | cons token rest =>
    rw [readGroup_cons hts] at h
    split at h
    · cases h
    · rename_i terms q hentry
      refine .inr ⟨token, rest, terms, q, rfl, hentry, ?_⟩
      split at h
      · rename_i hc
        split at h
        · cases h
        · rename_i h0
          cases h
          exact .inl ⟨hc, h0, rfl⟩
      · rename_i hc
        exact .inr ⟨Nat.eq_zero_of_not_pos hc, h⟩

/-! ## The state of a reading -/

namespace Progress

/-- The parentheses that close behind all of these tokens. -/
def totalCloses : List Token → Nat
  | [] => 0
  | token :: rest => token.closes + totalCloses rest

/-- A sum over tokens grows by what one more token counts. -/
theorem total_concat (total : List Token → Nat) (count : Token → Nat) (hnil : total [] = 0)
    (hcons : ∀ token rest, total (token :: rest) = count token + total rest) (read : List Token)
    (token : Token) : total (read ++ [token]) = total read + count token := by
  induction read with
  | nil => rw [List.nil_append, hcons, hnil, Nat.add_comm]
  | cons first read ih => rw [List.cons_append, hcons, ih, hcons, Nat.add_assoc]

theorem totalOpens_concat (read : List Token) (token : Token) :
    totalOpens (read ++ [token]) = totalOpens read + token.opens :=
  total_concat totalOpens (·.opens) rfl (fun _ _ => rfl) read token

theorem totalCloses_concat (read : List Token) (token : Token) :
    totalCloses (read ++ [token]) = totalCloses read + token.closes :=
  total_concat totalCloses (·.closes) rfl (fun _ _ => rfl) read token

theorem covered_concat (read : List Token) (token : Token) :
    Token.covered (read ++ [token]) = Token.covered read + token.span.length :=
  total_concat Token.covered (·.span.length) rfl (fun _ _ => rfl) read token

/-- Whether just the tokens `read` of all the tokens of a text are read, and those that are left lie
behind them in it. -/
structure HasRead (length : Nat) (tokens read : List Token) (p : Progress) : Prop where
  tokens_eq : tokens = read ++ p.tokens
  covered_eq : p.covered = Token.covered read
  covered_le : p.covered ≤ p.position
  laidOut : Token.LaidOut length p.position p.tokens

/-- Whether a round may begin inside `depth` parentheses: all parentheses behind the tokens read are
handled, and of those before the next token all but `p.opens`. -/
structure AtRound (maxDepth length depth : Nat) (tokens read : List Token) (p : Progress) : Prop
    extends HasRead length tokens read p where
  closes_eq : p.closes = 0
  opens_le : p.opens ≤ opensOf p.tokens
  depth_le : depth ≤ maxDepth
  balance : depth + totalCloses read + p.opens = totalOpens read + opensOf p.tokens

/-- Whether an entry of a list inside `depth` parentheses may end: of the parentheses behind the
tokens read all but `p.closes` are handled, and of those before the next token none. -/
structure AtEntryEnd (maxDepth length depth : Nat) (tokens read : List Token) (p : Progress) : Prop
    extends HasRead length tokens read p where
  opens_eq : p.opens = opensOf p.tokens
  depth_le : depth ≤ maxDepth
  balance : depth + totalCloses read = totalOpens read + p.closes

theorem atRound_start (h : Token.LaidOut length 0 tokens) :
    (start tokens).AtRound maxDepth length 0 tokens [] where
  tokens_eq := rfl
  covered_eq := rfl
  covered_le := Nat.le_refl 0
  laidOut := h
  closes_eq := rfl
  opens_le := Nat.le_refl _
  depth_le := Nat.zero_le maxDepth
  balance := rfl

/-- A parenthesis that opens a group is handled. -/
theorem AtRound.enter (h : p.AtRound maxDepth length depth tokens read) (ho : 0 < p.opens)
    (hdepth : depth < maxDepth) : p.enter.AtRound maxDepth length (depth + 1) tokens read where
  toHasRead := ⟨h.tokens_eq, h.covered_eq, h.covered_le, h.laidOut⟩
  closes_eq := h.closes_eq
  opens_le := Nat.le_trans (Nat.sub_le _ _) h.opens_le
  depth_le := hdepth
  balance := by
    have := h.balance
    simp only [Progress.enter]
    omega

/-- A token is read once the parentheses before it are handled. Those behind it are still to come.
-/
theorem AtRound.consume (h : p.AtRound maxDepth length depth tokens read)
    (hts : p.tokens = token :: rest) (ho : p.opens = 0) (d : Directives) :
    AtEntryEnd maxDepth length depth tokens (read ++ [token])
      { p.consume token rest with directives := d } where
  tokens_eq := by
    rw [h.tokens_eq, hts, List.append_assoc]
    rfl
  covered_eq := by rw [covered_concat, ← h.covered_eq]; rfl
  covered_le := by
    obtain ⟨hle, hlt, -⟩ := hts ▸ h.laidOut
    have := h.covered_le
    simp only [Progress.consume, Span.length]
    omega
  laidOut := (hts ▸ h.laidOut).2.2
  opens_eq := rfl
  depth_le := h.depth_le
  balance := by
    have := h.balance
    rw [hts, opensOf] at this
    rw [totalCloses_concat, totalOpens_concat]
    simp only [Progress.consume]
    omega

/-- A parenthesis that closes a list ends an entry of the list around it. -/
theorem AtEntryEnd.leave (h : q.AtEntryEnd maxDepth length (depth + 1) tokens read)
    (hc : 0 < q.closes) : q.leave.AtEntryEnd maxDepth length depth tokens read where
  toHasRead := ⟨h.tokens_eq, h.covered_eq, h.covered_le, h.laidOut⟩
  opens_eq := h.opens_eq
  depth_le := Nat.le_of_succ_le h.depth_le
  balance := by
    have := h.balance
    simp only [Progress.leave]
    omega

/-- With no parenthesis left to close, the next round begins. -/
theorem AtEntryEnd.next (h : q.AtEntryEnd maxDepth length depth tokens read)
    (hc : q.closes = 0) : q.AtRound maxDepth length depth tokens read where
  toHasRead := h.toHasRead
  closes_eq := hc
  opens_le := Nat.le_of_eq h.opens_eq
  depth_le := h.depth_le
  balance := by
    have := h.balance
    have := h.opens_eq
    omega

/-! ## What is left to read -/

/-- Whether less is left to read: fewer tokens, or as many of them with fewer parentheses before the
first. -/
def LessLeft (q p : Progress) : Prop :=
  Prod.Lex (· < ·) (· < ·) (q.tokens.length, q.opens) (p.tokens.length, p.opens)

theorem lessLeft_iff :
    q.LessLeft p ↔ q.tokens.length < p.tokens.length ∨
      q.tokens.length = p.tokens.length ∧ q.opens < p.opens :=
  Prod.lex_def

theorem LessLeft.trans {o : Progress} (h : o.LessLeft q) (h' : q.LessLeft p) :
    o.LessLeft p := by
  rw [lessLeft_iff] at h h' ⊢
  omega

theorem wellFounded_lessLeft : WellFounded LessLeft :=
  InvImage.wf (fun p : Progress => (p.tokens.length, p.opens))
    (Prod.lex ⟨_, Nat.lt_wfRel.wf⟩ ⟨_, Nat.lt_wfRel.wf⟩).wf

theorem lessLeft_enter (ho : 0 < p.opens) : p.enter.LessLeft p :=
  lessLeft_iff.mpr (.inr ⟨rfl, Nat.sub_lt ho Nat.one_pos⟩)

end Progress

/-! ## What an entry keeps -/

/-- A list that is closed ends an entry of the list around it. -/
theorem atEntryEnd_of_readGroup
    (h : readGroup maxDepth length (depth + 1) before p = .ok (terms, q))
    (hp : p.AtRound maxDepth length (depth + 1) tokens read) :
    ∃ read, q.AtEntryEnd maxDepth length depth tokens read := by
  generalize hd : depth + 1 = d at h hp
  induction d, before, p using call_induction maxDepth length generalizing depth terms q read with
  | call d before p inner next =>
    subst hd
    rcases readGroup_eq_ok h with ⟨-, h0, -⟩ | ⟨token, rest, terms', q', hts, hentry, hend⟩
    · cases h0
    · -- whether a call of its own or a token reads the entry, this list goes on behind it
      have hq' : ∃ read, q'.AtEntryEnd maxDepth length (depth + 1) tokens read := by
        rcases readEntry_eq_ok hentry with ⟨⟨-, ho, hdepth⟩, group, hgroup⟩ | ⟨ho, d, rfl⟩
        · exact inner ho rfl hgroup (hp.enter ho hdepth)
        · exact ⟨_, hp.consume hts ho d⟩
      obtain ⟨read', hq'⟩ := hq'
      rcases hend with ⟨hc, -, heq⟩ | ⟨hc, hrest⟩
      · cases heq
        exact ⟨read', hq'.leave hc⟩
      · exact next token rest terms' q' hts hentry rfl hrest (hq'.next hc)

theorem atEntryEnd_of_readEntry (hts : p.tokens = token :: rest)
    (h : readEntry maxDepth length depth before p token rest = .ok (terms, q))
    (hp : p.AtRound maxDepth length depth tokens read) :
    ∃ read, q.AtEntryEnd maxDepth length depth tokens read := by
  rcases readEntry_eq_ok h with ⟨⟨-, ho, hdepth⟩, group, hgroup⟩ | ⟨ho, d, rfl⟩
  · exact atEntryEnd_of_readGroup hgroup (hp.enter ho hdepth)
  · exact ⟨_, hp.consume hts ho d⟩

end UrlFilter
