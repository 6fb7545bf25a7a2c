import UrlFilter.Proofs.Query.Progress

/-! The rounds of a reading. Each call of `readGroup` begins a round of the loop over the entries of
a list: it opens a group, and the rounds of the group follow, or it reads a token; then the loop
goes on, or the list is closed. `Round.ofGroup` are these calls in the order in which they are made.
By `rounds_sound` each of them begins in a sound state, and each leaves less to read to the next, so
that every token is taken once. -/
namespace UrlFilter

/-- The beginning of a round: the arguments of `readGroup`. -/
structure Round where
  /-- The parentheses around the list. -/
  depth : Nat
  /-- The terms of the list that are read. -/
  before : Filter
  progress : Progress
  deriving DecidableEq, Repr

namespace Round

/-- The rounds of reading a list from the middle, the rounds of the groups in it included. -/
def ofGroup (maxDepth length depth : Nat) (before : Filter) (p : Progress) : List Round :=
  ⟨depth, before, p⟩ ::
    match _h : p.tokens with
    | [] => []
    | token :: rest =>
      (if _ho : (token.link before).isOk ∧ 0 < p.opens ∧ depth < maxDepth then
        ofGroup maxDepth length (depth + 1) [] p.enter
      else []) ++
      match _hr : readEntry maxDepth length depth before p token rest with
      | .error _ => []
      | .ok (terms, q) =>
        if 0 < q.closes then [] else ofGroup maxDepth length depth terms q
termination_by p.work
decreasing_by
  · exact Progress.work_enter _ho.2.1
  · exact work_lt_of_readEntry _h _hr

/-- The rounds of reading a text. -/
def ofText (s : String) (maxDepth : Nat) : List Round :=
  match Query.tokens s with
  | .error _ => []
  | .ok tokens => ofGroup maxDepth (Text.byteLength s.toList) 0 [] (.start tokens)

/-- The token that a round reads, if it opens no group. -/
def taken? (r : Round) : Option Token :=
  if r.progress.opens = 0 then r.progress.tokens.head? else none

/-- Whether a round of reading a text of `length` bytes begins in a sound state: before the token at
`cursor`, with all parentheses that precede this token handled and some of its own. -/
structure IsSound (maxDepth length : Nat) (tokens : List Token) (cursor : Nat) (r : Round) :
    Prop where
  cursor_le : cursor ≤ tokens.length
  tokens_eq : r.progress.tokens = tokens.drop cursor
  closes_eq : r.progress.closes = 0
  opens_le : r.progress.opens ≤ Progress.opensOf (tokens.drop cursor)
  depth_le : r.depth ≤ maxDepth
  covered_eq : r.progress.covered = Token.covered (tokens.take cursor)
  covered_le : r.progress.covered ≤ r.progress.position
  position_le : r.progress.position ≤ length
  /-- The depth is the number of parentheses before the token that are handled and open a group,
  less those that close one. -/
  depth_eq : (r.depth : Int) = Progress.totalOpens (tokens.take cursor) -
    Progress.totalCloses (tokens.take cursor) +
      (Progress.opensOf (tokens.drop cursor) - r.progress.opens)

/-- Whether all that a round takes away was there: the parenthesis that opens a group, the bytes
before a token, and the parenthesis that closes the list. -/
structure IsExact (maxDepth length : Nat) (r : Round) : Prop where
  enter : 0 < r.progress.opens → r.progress.enter.opens + 1 = r.progress.opens
  consume : ∀ token rest, r.progress.tokens = token :: rest →
    (r.progress.consume token rest).covered + token.span.start =
      r.progress.covered + token.span.stop
  leave : ∀ token rest terms q, r.progress.tokens = token :: rest →
    readEntry maxDepth length r.depth r.before r.progress token rest = .ok (terms, q) →
      0 < q.closes → q.leave.closes + 1 = q.closes

/-! ## The rounds of a list by their parts -/

/-- The rounds of the group that a round opens before `token`. -/
def within (maxDepth length depth : Nat) (before : Filter) (p : Progress) (token : Token) :
    List Round :=
  if (token.link before).isOk ∧ 0 < p.opens ∧ depth < maxDepth then
    ofGroup maxDepth length (depth + 1) [] p.enter
  else []

/-- The rounds in the same list behind an entry with this outcome. -/
def behind (maxDepth length depth : Nat) : Except QueryError Reading → List Round
  | .error _ => []
  | .ok (terms, q) => if 0 < q.closes then [] else ofGroup maxDepth length depth terms q

variable {maxDepth length depth : Nat} {before terms : Filter} {p q : Progress} {token : Token}
  {rest tokens read : List Token} {r : Round}

theorem ofGroup_nil (h : p.tokens = []) :
    ofGroup maxDepth length depth before p = [⟨depth, before, p⟩] := by
  rw [ofGroup]
  split
  · rfl
  · simp_all

theorem ofGroup_cons (h : p.tokens = token :: rest) :
    ofGroup maxDepth length depth before p =
      ⟨depth, before, p⟩ :: (within maxDepth length depth before p token ++
        behind maxDepth length depth (readEntry maxDepth length depth before p token rest)) := by
  rw [ofGroup]
  split
  · simp_all
  · rename_i token' rest' h'
    obtain ⟨rfl, rfl⟩ : token' = token ∧ rest' = rest := by simp_all
    refine congrArg (List.cons _) (congrArg₂ List.append rfl ?_)
    split
    · rename_i he
      rw [he, behind]
    · rename_i he
      rw [he, behind]

theorem mem_within :
    r ∈ within maxDepth length depth before p token ↔
      ((token.link before).isOk ∧ 0 < p.opens ∧ depth < maxDepth) ∧
        r ∈ ofGroup maxDepth length (depth + 1) [] p.enter := by
  unfold within
  split
  · rename_i ho
    simp only [ho, true_and]
  · rename_i ho
    simp only [ho, false_and, List.not_mem_nil]

theorem mem_behind {e : Except QueryError Reading} :
    r ∈ behind maxDepth length depth e ↔
      ∃ terms q, e = .ok (terms, q) ∧ q.closes = 0 ∧
        r ∈ ofGroup maxDepth length depth terms q := by
  cases e with
  | error e => simp [behind]
  | ok reading =>
    obtain ⟨terms, q⟩ := reading
    by_cases hc : 0 < q.closes
    · rw [behind, if_pos hc]
      simp only [List.not_mem_nil, false_iff]
      rintro ⟨_, _, ⟨⟩, h0, -⟩
      omega
    · rw [behind, if_neg hc]
      constructor
      · exact fun hr => ⟨terms, q, rfl, by omega, hr⟩
      · rintro ⟨_, _, ⟨⟩, -, hr⟩
        exact hr

/-- The first round of a reading is the call itself. -/
theorem mem_ofGroup_self (maxDepth length depth : Nat) (before : Filter) (p : Progress) :
    ⟨depth, before, p⟩ ∈ ofGroup maxDepth length depth before p := by
  cases hts : p.tokens with
  | nil => rw [ofGroup_nil hts]; exact List.mem_cons_self
  | cons token rest => rw [ofGroup_cons hts]; exact List.mem_cons_self

/-! ## The state of each round -/

/-- Where one round begins, all further rounds begin as they may. -/
theorem atRound_of_mem_ofGroup (hr : r ∈ ofGroup maxDepth length depth before p)
    (hp : p.AtRound maxDepth length depth tokens read) :
    ∃ read, r.progress.AtRound maxDepth length r.depth tokens read := by
  induction depth, before, p using call_induction maxDepth length generalizing read with
  | call depth before p inner next =>
    cases hts : p.tokens with
    | nil =>
      rw [ofGroup_nil hts, List.mem_singleton] at hr
      exact hr ▸ ⟨read, hp⟩
    | cons token rest =>
      rw [ofGroup_cons hts, List.mem_cons, List.mem_append] at hr
      rcases hr with rfl | hr | hr
      · exact ⟨read, hp⟩
      · obtain ⟨⟨-, ho, hdepth⟩, hr⟩ := mem_within.mp hr
        exact inner ho hr (hp.enter ho hdepth)
      · obtain ⟨terms, q, hentry, hc, hr⟩ := mem_behind.mp hr
        obtain ⟨read', hq⟩ := atEntryEnd_of_readEntry hts hentry hp
        exact next token rest terms q hts hentry hr (hq.next hc)

/-! ## What is left to read -/

/-- Behind a list that is closed fewer tokens are left than in any round of it. -/
theorem length_lt_of_mem_ofGroup
    (h : readGroup maxDepth length (depth + 1) before p = .ok (terms, q))
    (hr : r ∈ ofGroup maxDepth length (depth + 1) before p) :
    q.tokens.length < r.progress.tokens.length := by
  generalize hd : depth + 1 = d at h hr
  induction d, before, p using call_induction maxDepth length generalizing depth terms q r with
  | call d before p inner next =>
    subst hd
    rcases readGroup_eq_ok h with ⟨-, h0, -⟩ | ⟨token, rest, terms', q', hts, hentry, hend⟩
    · cases h0
    · have hle : q.tokens.length ≤ q'.tokens.length := by
        rcases hend with ⟨-, -, heq⟩ | ⟨-, hrest⟩
        · cases heq
          exact Nat.le_refl _
        · exact Nat.le_of_lt
            (next token rest terms' q' hts hentry rfl hrest (mem_ofGroup_self ..))
      have hlt : q'.tokens.length < p.tokens.length := by
        rcases readEntry_eq_ok hentry with ⟨⟨-, ho, -⟩, group, hgroup⟩ | ⟨-, d, rfl⟩
        · exact inner ho rfl hgroup (mem_ofGroup_self ..)
        · rw [hts]
          exact Nat.lt_succ_self rest.length
      rw [ofGroup_cons hts, List.mem_cons, List.mem_append] at hr
      rcases hr with rfl | hr | hr
      · exact Nat.lt_of_le_of_lt hle hlt
      · obtain ⟨⟨-, ho, -⟩, hr⟩ := mem_within.mp hr
        rcases readEntry_eq_ok hentry with ⟨-, group, hgroup⟩ | ⟨h0, -⟩
        · exact Nat.lt_of_le_of_lt hle (inner ho rfl hgroup hr)
        · omega
      · obtain ⟨terms'', q'', hentry', hc, hr⟩ := mem_behind.mp hr
        rw [hentry] at hentry'
        cases hentry'
        rcases hend with ⟨hc', -, -⟩ | ⟨-, hrest⟩
        · omega
        · exact next token rest terms' q' hts hentry rfl hrest hr

/-- An entry takes a token at least. -/
theorem length_lt_of_readEntry (hts : p.tokens = token :: rest)
    (h : readEntry maxDepth length depth before p token rest = .ok (terms, q)) :
    q.tokens.length < p.tokens.length := by
  rcases readEntry_eq_ok h with ⟨-, group, hgroup⟩ | ⟨-, d, rfl⟩
  · exact length_lt_of_mem_ofGroup hgroup (mem_ofGroup_self ..)
  · rw [hts]
    exact Nat.lt_succ_self rest.length

theorem eq_or_lessLeft_of_pairwise
    (h : (ofGroup maxDepth length depth before p).Pairwise fun r r' =>
      r'.progress.LessLeft r.progress)
    (hr : r ∈ ofGroup maxDepth length depth before p) :
    r = ⟨depth, before, p⟩ ∨ r.progress.LessLeft p := by
  cases hts : p.tokens with
  | nil =>
    rw [ofGroup_nil hts, List.mem_singleton] at hr
    exact .inl hr
  | cons token rest =>
    rw [ofGroup_cons hts] at h hr
    exact (List.mem_cons.mp hr).imp_right ((List.pairwise_cons.mp h).1 r)

theorem length_le_of_pairwise
    (h : (ofGroup maxDepth length depth before p).Pairwise fun r r' =>
      r'.progress.LessLeft r.progress)
    (hr : r ∈ ofGroup maxDepth length depth before p) :
    r.progress.tokens.length ≤ p.tokens.length := by
  rcases eq_or_lessLeft_of_pairwise h hr with rfl | hless
  · exact Nat.le_refl _
  · rcases Progress.lessLeft_iff.mp hless with hlt | ⟨heq, -⟩
    · exact Nat.le_of_lt hlt
    · exact Nat.le_of_eq heq

/-- In a group that a round opens, less is left to read than in the round. -/
theorem lessLeft_of_mem_within
    (h : 0 < p.opens → (ofGroup maxDepth length (depth + 1) [] p.enter).Pairwise fun r r' =>
      r'.progress.LessLeft r.progress)
    (hr : r ∈ within maxDepth length depth before p token) : r.progress.LessLeft p := by
  obtain ⟨⟨-, ho, -⟩, hr⟩ := mem_within.mp hr
  rcases eq_or_lessLeft_of_pairwise (h ho) hr with rfl | hless
  · exact Progress.lessLeft_enter ho
  · exact hless.trans (Progress.lessLeft_enter ho)

/-- The rounds within a group come before its tokens are all read. -/
theorem length_lt_of_mem_within
    (h : readEntry maxDepth length depth before p token rest = .ok (terms, q))
    (hr : r ∈ within maxDepth length depth before p token) :
    q.tokens.length < r.progress.tokens.length := by
  obtain ⟨⟨-, ho, -⟩, hr⟩ := mem_within.mp hr
  rcases readEntry_eq_ok h with ⟨-, group, hgroup⟩ | ⟨h0, -⟩
  · exact length_lt_of_mem_ofGroup hgroup hr
  · omega

/-- From each round to every later one, less is left to read. -/
theorem pairwise_ofGroup (maxDepth length depth : Nat) (before : Filter) (p : Progress) :
    (ofGroup maxDepth length depth before p).Pairwise fun r r' =>
      r'.progress.LessLeft r.progress := by
  induction depth, before, p using call_induction maxDepth length with
  | call depth before p inner next =>
    cases hts : p.tokens with
    | nil => rw [ofGroup_nil hts]; exact List.pairwise_singleton ..
    | cons token rest =>
      have hwithin : (within maxDepth length depth before p token).Pairwise fun r r' =>
          r'.progress.LessLeft r.progress := by
        unfold within
        split
        · rename_i ho
          exact inner ho.2.1
        · exact .nil
      rw [ofGroup_cons hts]
      cases hentry : readEntry maxDepth length depth before p token rest with
      | error e =>
        rw [behind, List.append_nil]
        exact List.pairwise_cons.mpr ⟨fun r hr => lessLeft_of_mem_within inner hr, hwithin⟩
      | ok reading =>
        obtain ⟨terms, q⟩ := reading
        have hrounds := next token rest terms q hts hentry
        -- behind the entry no more tokens are left than it leaves
        have hbehind : ∀ r ∈ behind maxDepth length depth (.ok (terms, q)),
            r.progress.tokens.length ≤ q.tokens.length := by
          intro r hr
          obtain ⟨_, _, ⟨⟩, -, hr⟩ := mem_behind.mp hr
          exact length_le_of_pairwise hrounds hr
        refine List.pairwise_cons.mpr ⟨fun r hr => ?_, List.pairwise_append.mpr
          ⟨hwithin, ?_, fun r hr r' hr' => ?_⟩⟩
        · rcases List.mem_append.mp hr with hr | hr
          · exact lessLeft_of_mem_within inner hr
          · exact Progress.lessLeft_iff.mpr
              (.inl (Nat.lt_of_le_of_lt (hbehind r hr) (length_lt_of_readEntry hts hentry)))
        · rw [behind]
          split
          · exact .nil
          · exact hrounds
        · exact Progress.lessLeft_iff.mpr
            (.inl (Nat.lt_of_le_of_lt (hbehind r' hr') (length_lt_of_mem_within hentry hr)))

/-! ## The tokens that are taken -/

theorem taken?_of_opens (ho : 0 < p.opens) : taken? ⟨depth, before, p⟩ = none :=
  if_neg (Nat.ne_of_gt ho)

theorem taken?_of_cons (ho : p.opens = 0) (hts : p.tokens = token :: rest) :
    taken? ⟨depth, before, p⟩ = some token := by
  rw [taken?, if_pos ho, hts]
  rfl

/-- The tokens that are taken by the rounds of a reading are those that are not left behind it. -/
theorem taken_append_of_readGroup
    (h : readGroup maxDepth length depth before p = .ok (terms, q)) :
    (ofGroup maxDepth length depth before p).filterMap taken? ++ q.tokens = p.tokens := by
  induction depth, before, p using call_induction maxDepth length generalizing terms q with
  | call depth before p inner next =>
    rcases readGroup_eq_ok h with ⟨hts, -, heq⟩ | ⟨token, rest, terms', q', hts, hentry, hend⟩
    · cases heq
      rw [ofGroup_nil hts, hts]
      simp [taken?, hts]
    · have hbehind : (behind maxDepth length depth
          (readEntry maxDepth length depth before p token rest)).filterMap taken? ++
            q.tokens = q'.tokens := by
        rw [hentry, behind]
        rcases hend with ⟨hc, -, heq⟩ | ⟨hc, hrest⟩
        · cases heq
          rw [if_pos hc]
          rfl
        · rw [if_neg (by omega)]
          exact next token rest terms' q' hts hentry hrest
      rw [ofGroup_cons hts]
      rcases readEntry_eq_ok hentry with ⟨hopens, group, hgroup⟩ | ⟨ho, d, rfl⟩
      · rw [List.filterMap_cons_none (taken?_of_opens hopens.2.1), List.filterMap_append,
          List.append_assoc, hbehind, within, if_pos hopens]
        exact inner hopens.2.1 hgroup
      · rw [List.filterMap_cons_some (taken?_of_cons ho hts), List.filterMap_append,
          List.cons_append, List.append_assoc, hbehind, within, if_neg (by omega), hts]
        rfl

/-- A text that is read to its end is left in its last round. -/
theorem getLast?_ofGroup (h : readGroup maxDepth length 0 before p = .ok (terms, q)) :
    q.tokens = [] ∧ (ofGroup maxDepth length 0 before p).getLast? = some ⟨0, terms, q⟩ := by
  generalize hd : 0 = d at h ⊢
  induction d, before, p using call_induction maxDepth length generalizing terms q with
  | call d before p inner next =>
    rcases readGroup_eq_ok h with ⟨hts, -, heq⟩ | ⟨token, rest, terms', q', hts, hentry, hend⟩
    · cases heq
      rw [ofGroup_nil hts]
      exact ⟨hts, rfl⟩
    · rcases hend with ⟨-, h0, -⟩ | ⟨hc, hrest⟩
      · exact absurd hd.symm h0
      · obtain ⟨hnil, hlast⟩ := next token rest terms' q' hts hentry hd hrest
        refine ⟨hnil, ?_⟩
        rw [ofGroup_cons hts, hentry, behind, if_neg (by omega), List.getLast?_cons,
          List.getLast?_append, hlast]
        rfl

/-! ## The rounds of a text -/

theorem isSound_of_atRound (h : r.progress.AtRound maxDepth length r.depth tokens read) :
    r.IsSound maxDepth length tokens read.length := by
  have hdrop : tokens.drop read.length = r.progress.tokens := by
    rw [h.tokens_eq, List.drop_left]
  have htake : tokens.take read.length = read := by
    rw [h.tokens_eq, List.take_left]
  refine ⟨?_, hdrop.symm, h.closes_eq, hdrop.symm ▸ h.opens_le, h.depth_le,
    htake.symm ▸ h.covered_eq, h.covered_le, h.laidOut.le, ?_⟩
  · rw [h.tokens_eq, List.length_append]
    exact Nat.le_add_right _ _
  · have := h.balance
    rw [hdrop, htake]
    omega

theorem isExact_of_atRound (h : r.progress.AtRound maxDepth length r.depth tokens read) :
    r.IsExact maxDepth length where
  enter := Nat.sub_add_cancel
  consume := by
    intro token rest hts
    obtain ⟨-, hlt, -⟩ := hts ▸ h.laidOut
    simp only [Progress.consume, Span.length]
    omega
  leave := fun _ _ _ _ _ _ => Nat.sub_add_cancel

theorem ofText_of_tokens {s : String} (h : Query.tokens s = .ok tokens) :
    ofText s maxDepth = ofGroup maxDepth (Text.byteLength s.toList) 0 [] (.start tokens) := by
  rw [ofText, h]

theorem atRound_of_mem_ofText {s : String} (hr : r ∈ ofText s maxDepth) :
    ∃ read, r.progress.AtRound maxDepth (Text.byteLength s.toList) r.depth (Token.scan s) read := by
  cases htokens : Query.tokens s with
  | error e =>
    rw [ofText, htokens] at hr
    cases hr
  | ok tokens =>
    rw [ofText_of_tokens htokens] at hr
    rw [Query.tokens_eq] at htokens
    split at htokens
    · cases htokens
    · cases htokens
      exact atRound_of_mem_ofGroup hr (Progress.atRound_start (Token.laidOut_scan s))

theorem pairwise_ofText (s : String) (maxDepth : Nat) :
    (ofText s maxDepth).Pairwise fun r r' => r'.progress.LessLeft r.progress := by
  unfold ofText
  split
  · exact .nil
  · exact pairwise_ofGroup ..

/-- Every round of reading a text begins in a sound state and takes away only what is there. From
each round to the next fewer tokens are left, or as many with fewer parentheses before them, and
this cannot go on for ever. Where the list at the top level is read to its end, the last round
stands behind all tokens, and the rounds have taken each of them once. -/
theorem rounds_sound (s : String) (maxDepth : Nat) :
    (∀ r ∈ ofText s maxDepth,
      (∃ cursor, r.IsSound maxDepth (Text.byteLength s.toList) (Token.scan s) cursor) ∧
        r.IsExact maxDepth (Text.byteLength s.toList)) ∧
    (ofText s maxDepth).Pairwise (fun r r' => r'.progress.LessLeft r.progress) ∧
    WellFounded Progress.LessLeft ∧
    ∀ tokens filter p, Query.tokens s = .ok tokens →
      readGroup maxDepth (Text.byteLength s.toList) 0 [] (.start tokens) = .ok (filter, p) →
        p.tokens = [] ∧ (ofText s maxDepth).getLast? = some ⟨0, filter, p⟩ ∧
          (ofText s maxDepth).filterMap taken? = tokens := by
  refine ⟨fun r hr => ?_, pairwise_ofText s maxDepth, Progress.wellFounded_lessLeft,
    fun tokens filter p htokens h => ?_⟩
  · obtain ⟨read, hread⟩ := atRound_of_mem_ofText hr
    exact ⟨⟨read.length, isSound_of_atRound hread⟩, isExact_of_atRound hread⟩
  · obtain ⟨hnil, hlast⟩ := getLast?_ofGroup h
    have htaken := taken_append_of_readGroup h
    rw [hnil, List.append_nil] at htaken
    rw [ofText_of_tokens htokens]
    exact ⟨hnil, hlast, htaken⟩

/-- Two groups open before the first token, and one of them closes behind it. -/
example : (ofText "((a=1)|b=2)&limit=3" 2).map (fun r =>
    (r.depth, r.progress.tokens.length, r.progress.opens)) =
      [(0, 3, 2), (1, 3, 1), (2, 3, 0), (1, 2, 0), (0, 1, 0), (0, 0, 0)] := by
  decide +kernel

end Round
end UrlFilter
