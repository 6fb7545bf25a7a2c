import UrlFilter.Proofs.Query.Spelling
import UrlFilter.Proofs.Query.Verdict

/-! The limit on the depth of parentheses. A text that keeps the limit says what it says under any
greater one, and a text that is refused for another fault is refused for the same fault; a limit
does nothing but refuse: `depth_limit_only_refuses`. Which texts it refuses is told by their
parentheses as they are written, so that those which add no level to the filter count, too. -/
namespace UrlFilter
namespace Lexeme

/-- The number of groups that terms leave open, by their parentheses as they are written. It is
negative where they close more than they open. -/
def nesting : List Lexeme → Int
  | [] => 0
  | x :: xs => x.opens - x.closes + nesting xs

/-- Whether a term before which `depth` groups are open is at fault under every limit: it is a
directive outside all groups whose count is none, or one of its parentheses closes nothing. -/
def IsFaulty (depth : Int) (x : Lexeme) : Prop :=
  (depth + x.opens = 0 ∧ x.NeedsCount ∧ ¬ DenotesCount x.value) ∨ depth + x.opens < x.closes

/-- Whether more than `maxDepth` groups are open behind the opening parentheses of one of the terms,
and no term before this one is at fault. Before the first term `depth` groups are open. -/
def GoTooDeep (maxDepth : Nat) (depth : Int) (xs : List Lexeme) : Prop :=
  ∃ before x after, xs = before ++ x :: after ∧ maxDepth < depth + nesting before + x.opens ∧
    ∀ first y rest, before = first ++ y :: rest → ¬ y.IsFaulty (depth + nesting first)

variable {maxDepth : Nat} {depth : Int} {x : Lexeme} {xs : List Lexeme}

theorem not_goTooDeep_nil : ¬ GoTooDeep maxDepth depth [] := by
  rintro ⟨before, x, after, hxs, -⟩
  exact List.append_ne_nil_of_right_ne_nil before (List.cons_ne_nil x after) hxs.symm

theorem goTooDeep_cons :
    GoTooDeep maxDepth depth (x :: xs) ↔
      maxDepth < depth + x.opens ∨
        ¬ x.IsFaulty depth ∧ GoTooDeep maxDepth (depth + x.opens - x.closes) xs := by
  have hnesting (first : List Lexeme) :
      depth + nesting (x :: first) = depth + x.opens - x.closes + nesting first := by
    rw [nesting]
    omega
  constructor
  · rintro ⟨before, y, after, hxs, hdeep, hfirst⟩
    cases before with
    | nil =>
      cases hxs
      rw [nesting, Int.add_zero] at hdeep
      exact .inl hdeep
    | cons z before =>
      cases hxs
      have hx := hfirst [] x before rfl
      rw [nesting, Int.add_zero] at hx
      rw [hnesting] at hdeep
      refine .inr ⟨hx, before, y, after, rfl, hdeep, fun first z rest hbefore => ?_⟩
      rw [← hnesting]
      exact hfirst (x :: first) z rest (congrArg _ hbefore)
  · rintro (hdeep | ⟨hx, before, y, after, rfl, hdeep, hfirst⟩)
    · exact ⟨[], x, xs, rfl, by rwa [nesting, Int.add_zero], fun first y rest hnil =>
        absurd hnil.symm (List.append_ne_nil_of_right_ne_nil first (List.cons_ne_nil y rest))⟩
    · refine ⟨x :: before, y, after, rfl, by rwa [hnesting], fun first z rest hbefore => ?_⟩
      cases first with
      | nil =>
        cases hbefore
        rwa [nesting, Int.add_zero]
      | cons w first =>
        cases hbefore
        rw [hnesting]
        exact hfirst first z rest rfl

end Lexeme

namespace Token

variable {maxDepth maxDepth' length depth : Nat} {token : Token} {tokens : List Token}

theorem fault?_of_lt (h : maxDepth < depth + token.opens) :
    token.fault? maxDepth depth = some (.tooDeep maxDepth) :=
  if_pos h

/-- Within the limit a token has the faults that it has under every limit. -/
theorem fault?_of_le (h : depth + token.opens ≤ maxDepth) :
    (token.fault? maxDepth depth = none ↔ ¬ token.IsFaulty depth) ∧
      token.fault? maxDepth depth ≠ some (.tooDeep maxDepth) := by
  constructor
  · have hzero : (depth : Int) + token.opens = 0 ↔ depth + token.opens = 0 := by omega
    have hlt : (depth : Int) + token.opens < token.closes ↔ depth + token.opens < token.closes := by
      omega
    rw [fault?_eq_none_iff, count?_eq_none_iff, Lexeme.IsFaulty, hzero, hlt, not_or, Nat.not_lt]
    exact and_iff_right h
  · rw [fault?, if_neg (Nat.not_lt_of_le h)]
    split
    · exact nofun
    · split
      · exact nofun
      · exact nofun

/-- Under a smaller limit the first fault is the same one, unless the limit is exceeded before. -/
theorem firstFault?_of_le (hle : maxDepth ≤ maxDepth') :
    firstFault? maxDepth length depth tokens = firstFault? maxDepth' length depth tokens ∨
      firstFault? maxDepth length depth tokens = some (.tooDeep maxDepth) := by
  induction tokens generalizing depth with
  | nil => exact .inl rfl
  | cons token rest ih =>
    rw [firstFault?, firstFault?]
    by_cases hdeep : maxDepth < depth + token.opens
    · rw [fault?_of_lt hdeep]
      exact .inr rfl
    · have hsame : token.fault? maxDepth depth = token.fault? maxDepth' depth := by
        rw [fault?, fault?, if_neg hdeep,
          if_neg (show ¬ maxDepth' < depth + token.opens by omega)]
      rw [← hsame]
      cases token.fault? maxDepth depth with
      | none => exact ih
      | some e => exact .inl rfl

/-- The limit is the first fault exactly if the terms go too deep before another one. -/
theorem firstFault?_eq_tooDeep_iff :
    firstFault? maxDepth length depth tokens = some (.tooDeep maxDepth) ↔
      Lexeme.GoTooDeep maxDepth depth (tokens.map toLexeme) := by
  induction tokens generalizing depth with
  | nil =>
    refine iff_of_false ?_ Lexeme.not_goTooDeep_nil
    rw [firstFault?]
    split
    · simp
    · simp
  | cons token rest ih =>
    rw [firstFault?, List.map_cons, Lexeme.goTooDeep_cons]
    by_cases hdeep : maxDepth < depth + token.opens
    · rw [fault?_of_lt hdeep]
      exact iff_of_true rfl (.inl (by omega))
    · obtain ⟨hnone, hne⟩ := fault?_of_le (Nat.le_of_not_lt hdeep)
      have hlimit : ¬ (maxDepth : Int) < depth + token.opens := by omega
      cases hf : token.fault? maxDepth depth with
      | none =>
        -- nothing closes too much, so the count of open groups stays a natural number
        have hcloses := (fault?_eq_none_iff.mp hf).2.2
        have hdepth : ((depth + token.opens - token.closes : Nat) : Int) =
            depth + token.opens - token.closes := by omega
        dsimp only
        rw [ih, hdepth]
        exact ⟨fun h => .inr ⟨hnone.mp hf, h⟩, fun h => (h.resolve_left hlimit).2⟩
      | some e =>
        rw [hf] at hnone hne
        refine iff_of_false hne ?_
        rintro (h | ⟨hno, -⟩)
        · exact hlimit h
        · exact absurd (hnone.mpr hno) (Option.some_ne_none e)

end Token

namespace Query

variable {s : String} {maxDepth maxDepth' : Nat}

theorem parse_of_le {q : Query} (h : parse s maxDepth = .ok q) (hle : maxDepth ≤ maxDepth') :
    parse s maxDepth' = .ok q := by
  obtain ⟨htext, hspell⟩ := spell_of_parse h
  exact parse_of_spell htext (hspell.of_le hle)

theorem fault?_of_le (hle : maxDepth ≤ maxDepth') :
    fault? maxDepth s = fault? maxDepth' s ∨ fault? maxDepth s = some (.tooDeep maxDepth) := by
  unfold fault?
  by_cases hs : s = ""
  · rw [if_pos hs, if_pos hs]
    exact .inl rfl
  · rw [if_neg hs, if_neg hs]
    by_cases hscan : Token.scan s = []
    · rw [if_pos hscan, if_pos hscan]
      exact .inl rfl
    · rw [if_neg hscan, if_neg hscan]
      have hfirst := @Token.firstFault?_of_le _ _ (Text.byteLength s.toList) 0 (Token.scan s) hle
      rcases hfirst with h | h
      · rw [h]
        exact .inl rfl
      · rw [h]
        exact .inr rfl

theorem fault?_eq_tooDeep_iff :
    fault? maxDepth s = some (.tooDeep maxDepth) ↔ Lexeme.GoTooDeep maxDepth 0 (terms s) := by
  have hfirst :=
    @Token.firstFault?_eq_tooDeep_iff maxDepth (Text.byteLength s.toList) 0 (Token.scan s)
  rw [terms, ← Int.natCast_zero, ← hfirst]
  unfold fault?
  by_cases hscan : Token.scan s = []
  · rw [hscan]
    by_cases hs : s = ""
    · rw [if_pos hs]
      rfl
    · rw [if_neg hs, if_pos rfl]
      simp [Token.firstFault?]
  · have hs : s ≠ "" := by
      rintro rfl
      exact hscan scan_empty
    rw [if_neg hs, if_neg hscan]
    cases Token.firstFault? maxDepth (Text.byteLength s.toList) 0 (Token.scan s) with
    | none =>
      dsimp only
      split
      · exact Iff.rfl
      · simp
    | some e => exact Iff.rfl

/-- Under a smaller limit a text has the same query or the same error, or it is refused for its
depth. It is refused for its depth exactly if the parentheses of one of its terms open more groups
than the limit allows, and no term before this one is at fault otherwise. -/
theorem depth_limit_only_refuses (s : String) (m m' : Nat) (h : m ≤ m') :
    (parse s m = parse s m' ∨ parse s m = .error (.tooDeep m)) ∧
      (parse s m = .error (.tooDeep m) ↔ Lexeme.GoTooDeep m 0 (terms s)) := by
  refine ⟨?_, parse_eq_error_iff.trans fault?_eq_tooDeep_iff⟩
  cases hq : parse s m with
  | ok q => exact .inl (parse_of_le hq h).symm
  | error e =>
    rw [parse_eq_error_iff] at hq
    rcases fault?_of_le (s := s) h with hsame | hdeep
    · rw [hsame] at hq
      exact .inl (parse_of_fault hq).symm
    · rw [hdeep] at hq
      exact .inr (congrArg Except.error (Option.some.inj hq).symm)

/-- Parentheses that add no level to the filter exceed the limit, and the count behind them is not
looked at. -/
theorem depth_limit_only_refuses_redundant :
    parse "((a=1))&limit=x" 1 = .error (.tooDeep 1) ∧
      parse "((a=1))&limit=x" 2 = .error (.notACount "limit" "x") ∧
      Lexeme.GoTooDeep 1 0 (terms "((a=1))&limit=x") ∧
      parse "((a=1))&limit=x" 2 = parse "((a=1))&limit=x" 32 := by
  have h₁ : parse "((a=1))&limit=x" 1 = .error (.tooDeep 1) := parse_of_fault (by decide +kernel)
  have h₂ : parse "((a=1))&limit=x" 2 = .error (.notACount "limit" "x") :=
    parse_of_fault (by decide +kernel)
  refine ⟨h₁, h₂, (depth_limit_only_refuses _ 1 2 (by decide)).2.mp h₁, ?_⟩
  rcases (depth_limit_only_refuses "((a=1))&limit=x" 2 32 (by decide)).1 with h | h
  · exact h
  · rw [h₂] at h
    cases h

end Query
end UrlFilter
