import UrlFilter.Proofs.Query.OnePass
import UrlFilter.Proofs.Token.Scan

/-! Which fault a reading reports. Only the number of open groups decides it: no list of terms
plays a part, and neither joining symbols nor operators can be at fault in what the scanner
gives. `run_of_fault` and `run_of_no_fault` say so of a whole pass. -/
namespace UrlFilter

/-- Whether the value of the term has to be a count where the term is a directive. -/
def Lexeme.NeedsCount (x : Lexeme) : Prop :=
  x.field = "limit" ∨ x.field = "offset"

instance (x : Lexeme) : Decidable x.NeedsCount :=
  inferInstanceAs (Decidable (x.field = "limit" ∨ x.field = "offset"))

/-- The fault of a token behind which `depth` groups are open, if it has one. -/
def Token.fault? (maxDepth depth : Nat) (token : Token) : Option QueryError :=
  if maxDepth < depth + token.opens then some (.tooDeep maxDepth)
  else if depth + token.opens = 0 ∧ token.NeedsCount ∧ Text.count? token.value = none then
    some (.notACount token.field token.value)
  else if depth + token.opens < token.closes then some (.unbalanced token.span.stop)
  else none

theorem Token.fault?_eq_none_iff {maxDepth depth : Nat} {token : Token} :
    token.fault? maxDepth depth = none ↔
      depth + token.opens ≤ maxDepth ∧
        ¬ (depth + token.opens = 0 ∧ token.NeedsCount ∧ Text.count? token.value = none) ∧
        token.closes ≤ depth + token.opens := by
  unfold fault?
  by_cases hdeep : maxDepth < depth + token.opens
  · rw [if_pos hdeep]
    exact ⟨nofun, fun h => absurd h.1 (Nat.not_le_of_lt hdeep)⟩
  · rw [if_neg hdeep]
    by_cases hcount : depth + token.opens = 0 ∧ token.NeedsCount ∧
        Text.count? token.value = none
    · rw [if_pos hcount]
      exact ⟨nofun, fun h => absurd hcount h.2.1⟩
    · rw [if_neg hcount]
      by_cases hclose : depth + token.opens < token.closes
      · rw [if_pos hclose]
        exact ⟨nofun, fun h => absurd h.2.2 (Nat.not_le_of_lt hclose)⟩
      · rw [if_neg hclose]
        exact ⟨fun _ => ⟨Nat.le_of_not_lt hdeep, hcount, Nat.le_of_not_lt hclose⟩, fun _ => rfl⟩

/-- The first fault of tokens that end a text of `length` bytes. -/
def Token.firstFault? (maxDepth length : Nat) : Nat → List Token → Option QueryError
  | depth, [] => if depth = 0 then none else some (.unbalanced length)
  | depth, token :: rest =>
    match token.fault? maxDepth depth with
    | some e => some e
    | none => firstFault? maxDepth length (depth + token.opens - token.closes) rest

/-- A joining symbol of the scanner always has a meaning. -/
theorem Lexeme.exists_link {x : Lexeme} (h : x.logic = "&" ∨ x.logic = "|") (before : Filter) :
    ∃ link, x.link before = .ok link := by
  unfold link
  split
  · exact ⟨.start, rfl⟩
  · rcases h with h | h
    · rw [h]
      exact ⟨.and, rfl⟩
    · rw [h]
      exact ⟨.or, rfl⟩

theorem Lexeme.exists_operator {x : Lexeme} (h : x.op ∈ Operator.spellings) :
    ∃ op, x.operator = .ok op := by
  obtain ⟨op, ho⟩ := Option.isSome_iff_exists.mp (Operator.isSome_ofSpelling? h)
  exact ⟨op, by simp [operator, ho]⟩

/-- What a directive does to a count and what else it can be. -/
theorem Directives.update?_eq (d : Directives) (x : Lexeme) :
    (x.NeedsCount ∧ Text.count? x.value = none ∧
        d.update? x = .error (.notACount x.field x.value)) ∨
      (¬ (x.NeedsCount ∧ Text.count? x.value = none) ∧ ∃ r, d.update? x = .ok r) := by
  unfold update? Lexeme.NeedsCount
  by_cases hl : x.field = "limit"
  · rw [if_pos hl]
    cases hc : Text.count? x.value with
    | none => exact .inl ⟨.inl hl, rfl, rfl⟩
    | some n => exact .inr ⟨by simp, _, rfl⟩
  · rw [if_neg hl]
    by_cases ho : x.field = "offset"
    · rw [if_pos ho]
      cases hc : Text.count? x.value with
      | none => exact .inl ⟨.inr ho, rfl, rfl⟩
      | some n => exact .inr ⟨by simp, _, rfl⟩
    · rw [if_neg ho]
      refine .inr ⟨by simp [hl, ho], ?_⟩
      split
      · exact ⟨_, rfl⟩
      · split
        · exact ⟨_, rfl⟩
        · exact ⟨_, rfl⟩

namespace Stack

variable {maxDepth length : Nat} {s : Stack} {p : Progress} {token : Token} {rest : List Token}

/-! ## The parts of a token -/

theorem openGroups_of_le {count : Nat} (hl : ∃ link, token.link s.top = .ok link)
    (h : s.height + count ≤ maxDepth) :
    ∃ t, s.openGroups maxDepth token count = .ok t ∧ t.height = s.height + count ∧
      ∃ link, token.link t.top = .ok link := by
  induction count generalizing s with
  | zero => exact ⟨s, rfl, rfl, hl⟩
  | succ count ih =>
    obtain ⟨link, hl⟩ := hl
    rw [openGroups, hl]
    dsimp only
    rw [if_neg (by omega)]
    have hh : height ⟨[], (s.top, link) :: s.below⟩ = s.height + 1 := rfl
    obtain ⟨t, ht, hth, htl⟩ :=
      ih (s := ⟨[], (s.top, link) :: s.below⟩) ⟨.start, rfl⟩ (by omega)
    exact ⟨t, ht, by omega, htl⟩

theorem openGroups_of_lt {count : Nat} (hl : ∃ link, token.link s.top = .ok link)
    (hm : s.height ≤ maxDepth) (h : maxDepth < s.height + count) :
    s.openGroups maxDepth token count = .error (.tooDeep maxDepth) := by
  induction count generalizing s with
  | zero => omega
  | succ count ih =>
    obtain ⟨link, hl⟩ := hl
    rw [openGroups, hl]
    dsimp only
    by_cases hd : maxDepth ≤ s.height
    · rw [if_pos hd]
    · rw [if_neg hd]
      have hh : height ⟨[], (s.top, link) :: s.below⟩ = s.height + 1 := rfl
      exact ih ⟨.start, rfl⟩ (by omega) (by omega)

theorem closeGroups_of_le (position : Nat) {count : Nat} (h : count ≤ s.height) :
    ∃ t, s.closeGroups position count = .ok t ∧ t.height = s.height - count := by
  induction count generalizing s with
  | zero => exact ⟨s, rfl, rfl⟩
  | succ count ih =>
    obtain ⟨terms, below⟩ := s
    cases below with
    | nil => simp [height] at h
    | cons frame below =>
      obtain ⟨t, ht, hth⟩ := ih (s := ⟨frame.1 ++ [Term.group frame.2 terms.collapse], below⟩)
        (Nat.le_of_succ_le_succ h)
      refine ⟨t, ht, ?_⟩
      simp only [height, List.length_cons] at hth ⊢
      omega

theorem closeGroups_of_lt {position count : Nat} (h : s.height < count) :
    s.closeGroups position count = .error (.unbalanced position) := by
  induction count generalizing s with
  | zero => omega
  | succ count ih =>
    obtain ⟨terms, below⟩ := s
    cases below with
    | nil => rfl
    | cons frame below =>
      exact ih (s := ⟨frame.1 ++ [Term.group frame.2 terms.collapse], below⟩)
        (Nat.lt_of_succ_lt_succ h)

/-- A term is at fault only where it is a directive with a count that is none. -/
theorem addTerm_eq (hl : ∃ link, token.link s.top = .ok link)
    (ho : token.op ∈ Operator.spellings) :
    (s.height = 0 ∧ token.NeedsCount ∧ Text.count? token.value = none ∧
        s.addTerm p token = .error (.notACount token.field token.value)) ∨
      (¬ (s.height = 0 ∧ token.NeedsCount ∧ Text.count? token.value = none) ∧
        ∃ t q, s.addTerm p token = .ok (t, q) ∧ t.height = s.height) := by
  obtain ⟨link, hl⟩ := hl
  obtain ⟨op, ho⟩ := Lexeme.exists_operator ho
  unfold addTerm
  rw [hl, ho]
  dsimp only
  -- only outside all groups a term may be a directive
  unfold Progress.readTerm
  dsimp only
  by_cases h0 : s.height = 0
  · rw [if_pos h0]
    rcases Directives.update?_eq p.directives token.toLexeme with ⟨hn, hc, he⟩ | ⟨hn, r, hr⟩
    · rw [he]
      exact .inl ⟨h0, hn, hc, rfl⟩
    · rw [hr]
      refine .inr ⟨fun h => hn h.2, ?_⟩
      cases r with
      | none => exact ⟨_, _, rfl, rfl⟩
      | some d => exact ⟨_, _, rfl, rfl⟩
  · rw [if_neg h0]
    exact .inr ⟨fun h => h0 h.1, _, _, rfl, rfl⟩

/-! ## One token -/

/-- A token without a fault is read, and moves the number of open groups by its
parentheses. -/
theorem read_of_no_fault (p : Progress) (rest : List Token)
    (hl : ∃ link, token.link s.top = .ok link) (ho : token.op ∈ Operator.spellings)
    (h : token.fault? maxDepth s.height = none) :
    ∃ t q, s.read maxDepth token rest p = .ok (t, q) ∧
      t.height = s.height + token.opens - token.closes := by
  obtain ⟨hdeep, hcount, hclose⟩ := Token.fault?_eq_none_iff.mp h
  obtain ⟨t, ht, hth, htl⟩ := openGroups_of_le hl hdeep
  rw [← hth] at hcount hclose
  rcases addTerm_eq (p := p.consume token rest) htl ho with ⟨h0, hn, hc, -⟩ |
    ⟨-, u, q, hu, huh⟩
  · exact absurd ⟨h0, hn, hc⟩ hcount
  · -- adding the term leaves the closing parentheses of the token as they are
    obtain ⟨d, hq⟩ := progress_of_addTerm hu
    have hcloses : q.closes = token.closes := by rw [hq]; rfl
    have hle : q.closes ≤ u.height := by omega
    obtain ⟨v, hv, hvh⟩ := closeGroups_of_le q.position hle
    refine ⟨v, { q with closes := 0 }, ?_, by omega⟩
    unfold read
    rw [ht]
    dsimp only
    rw [hu]
    dsimp only
    rw [hv]

/-- A token with a fault reports it. -/
theorem read_of_fault {e : QueryError} (hl : ∃ link, token.link s.top = .ok link)
    (ho : token.op ∈ Operator.spellings) (hm : s.height ≤ maxDepth)
    (h : token.fault? maxDepth s.height = some e) :
    s.read maxDepth token rest p = .error e := by
  unfold Token.fault? at h
  unfold read
  split at h
  · rename_i hdeep
    rw [openGroups_of_lt hl hm hdeep]
    simpa using h
  · rename_i hdeep
    obtain ⟨t, ht, hth, htl⟩ := openGroups_of_le hl (Nat.le_of_not_lt hdeep)
    rw [ht]
    dsimp only
    rw [← hth] at h
    rcases addTerm_eq (p := p.consume token rest) htl ho with ⟨h0, hn, hc, hu⟩ |
      ⟨hno, u, q, hu, huh⟩
    · rw [if_pos ⟨h0, hn, hc⟩] at h
      rw [hu]
      simpa using h
    · rw [if_neg hno] at h
      split at h
      · rename_i hclose
        obtain ⟨d, hq⟩ := progress_of_addTerm hu
        have hcloses : q.closes = token.closes := by rw [hq]; rfl
        have hposition : q.position = token.span.stop := by rw [hq]; rfl
        rw [hu]
        dsimp only
        rw [closeGroups_of_lt (by omega), hposition]
        simpa using h
      · simp at h

/-! ## The whole pass -/

/-- Whether the tokens can be joined to what is read before them. -/
theorem exists_link_of_areScanned {first : Bool} (hfirst : first = true → s.top = [])
    (h : Token.AreScanned first (token :: rest)) : ∃ link, token.link s.top = .ok link := by
  rcases h.2.1 with hf | hlogic
  · rw [hfirst hf]
    exact ⟨.start, rfl⟩
  · exact Lexeme.exists_link hlogic s.top

/-- Tokens without a fault are read to the end. -/
theorem run_of_no_fault {first : Bool} {tokens : List Token} (hfirst : first = true → s.top = [])
    (hscan : Token.AreScanned first tokens)
    (h : Token.firstFault? maxDepth length s.height tokens = none) :
    ∃ r, s.run maxDepth length tokens p = .ok r := by
  induction tokens generalizing first s p with
  | nil =>
    rw [Token.firstFault?] at h
    split at h
    · rename_i h0
      exact ⟨_, by rw [run, if_pos h0]⟩
    · simp at h
  | cons token rest ih =>
    rw [Token.firstFault?] at h
    split at h
    · simp at h
    · rename_i hf
      obtain ⟨t, q, hr, ht⟩ := read_of_no_fault p rest
        (exists_link_of_areScanned hfirst hscan) hscan.1 hf
      rw [run, hr]
      rw [← ht] at h
      exact ih (by simp) hscan.2.2 h

/-- The first fault of the tokens is what the pass reports. -/
theorem run_of_fault {first : Bool} {tokens : List Token} {e : QueryError}
    (hfirst : first = true → s.top = []) (hscan : Token.AreScanned first tokens)
    (hm : s.height ≤ maxDepth)
    (h : Token.firstFault? maxDepth length s.height tokens = some e) :
    s.run maxDepth length tokens p = .error e := by
  induction tokens generalizing first s p with
  | nil =>
    rw [Token.firstFault?] at h
    split at h
    · simp at h
    · rename_i h0
      rw [run, if_neg h0]
      simpa using h
  | cons token rest ih =>
    have hl := exists_link_of_areScanned hfirst hscan
    rw [Token.firstFault?] at h
    split at h
    · rename_i e' hf
      rw [run, read_of_fault hl hscan.1 hm hf]
      simpa using h
    · rename_i hf
      obtain ⟨t, q, hr, ht⟩ := read_of_no_fault p rest hl hscan.1 hf
      have hle := (Token.fault?_eq_none_iff.mp hf).1
      rw [run, hr]
      rw [← ht] at h
      exact ih (by simp) hscan.2.2 (by omega) h

end Stack
end UrlFilter
