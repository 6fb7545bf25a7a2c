import UrlFilter.Proofs.Query.Grammar

/-! The verdict on a text. Counting decides it: the open groups before each token, the bytes that
the tokens cover, and whether the values of counts are counts. `parse_error_iff_fault` says that a
text is refused exactly if the count finds a fault, and with this fault. -/
namespace UrlFilter

/-- Whether a token can have the fault: where groups open, where a count is none, and where groups
close. -/
def QueryError.IsOfToken : QueryError → Prop
  | tooDeep _ | notACount _ _ | unbalanced _ => True
  | noTerm | uncovered _ _ | unknownLogic _ | unknownOperator _ | notUtf8 _ => False

namespace Token

variable {maxDepth length depth : Nat} {e : QueryError}

theorem isOfToken_of_fault? {token : Token} (h : token.fault? maxDepth depth = some e) :
    e.IsOfToken := by
  unfold fault? at h
  split at h
  · cases h
    trivial
  · split at h
    · cases h
      trivial
    · split at h
      · cases h
        trivial
      · simp at h

theorem isOfToken_of_firstFault? {tokens : List Token}
    (h : firstFault? maxDepth length depth tokens = some e) : e.IsOfToken := by
  induction tokens generalizing depth with
  | nil =>
    rw [firstFault?] at h
    split at h
    · simp at h
    · cases h
      trivial
  | cons token rest ih =>
    rw [firstFault?] at h
    split at h
    · rename_i hf
      cases h
      exact isOfToken_of_fault? hf
    · exact ih h

end Token

namespace Query

/-- The fault of a text, as far as counting tells: no token at all, the first fault of a token,
or bytes that no token covers. -/
def fault? (maxDepth : Nat) (s : String) : Option QueryError :=
  if s = "" then none
  else if Token.scan s = [] then some .noTerm
  else
    match Token.firstFault? maxDepth (Text.byteLength s.toList) 0 (Token.scan s) with
    | some e => some e
    | none =>
      if Token.covered (Token.scan s) = Text.byteLength s.toList then none
      else some (.uncovered (Token.covered (Token.scan s)) (Text.byteLength s.toList))

variable {s : String} {maxDepth : Nat} {e : QueryError}

/-- A text with a fault is refused for it. -/
theorem parse_of_fault (h : fault? maxDepth s = some e) : parse s maxDepth = .error e := by
  rw [parse_eq]
  unfold fault? at h
  by_cases hs : s = ""
  · rw [if_pos hs] at h
    simp at h
  · rw [if_neg hs] at h
    by_cases hscan : Token.scan s = []
    · rw [if_pos hscan] at h
      rw [if_pos ⟨hs, hscan⟩, Option.some.inj h]
    · rw [if_neg hscan] at h
      rw [if_neg fun h => hscan h.2]
      split at h
      · rename_i e' hf
        rw [Stack.run_of_fault (s := {}) (fun _ => rfl) (Token.areScanned_scan s)
          (Nat.zero_le maxDepth) hf, Option.some.inj h]
      · -- all tokens are read, so only their bytes can fall short
        rename_i hf
        obtain ⟨r, hr⟩ := Stack.run_of_no_fault (s := {}) (p := .start (Token.scan s))
          (fun _ => rfl) (Token.areScanned_scan s) hf
        rw [hr]
        dsimp only
        split at h
        · simp at h
        · rename_i hcovered
          rw [if_neg hcovered, Option.some.inj h]

/-- A text without a fault is a query. -/
theorem parse_of_no_fault (h : fault? maxDepth s = none) : ∃ q, parse s maxDepth = .ok q := by
  unfold fault? at h
  by_cases hs : s = ""
  · exact ⟨{}, hs ▸ parse_empty maxDepth⟩
  · rw [if_neg hs] at h
    split at h
    · simp at h
    · rename_i hscan
      split at h
      · simp at h
      · rename_i hf
        split at h
        · rename_i hcovered
          obtain ⟨⟨filter, p⟩, hr⟩ := Stack.run_of_no_fault (s := {}) (p := .start (Token.scan s))
            (fun _ => rfl) (Token.areScanned_scan s) hf
          exact ⟨{ p.directives with filter },
            parse_eq_ok_iff.mpr ⟨.inr hscan, hcovered, p, hr, rfl⟩⟩
        · simp at h

/-- The verdict on a text is the fault that the count finds. -/
theorem parse_eq_error_iff : parse s maxDepth = .error e ↔ fault? maxDepth s = some e := by
  refine ⟨fun h => ?_, parse_of_fault⟩
  cases hf : fault? maxDepth s with
  | none =>
    obtain ⟨q, hq⟩ := parse_of_no_fault hf
    rw [h] at hq
    cases hq
  | some e' =>
    rw [parse_of_fault hf] at h
    cases h
    rfl

/-- A text has no token, or one of its tokens is at fault, or they leave bytes over. -/
theorem fault?_cases (h : fault? maxDepth s = some e) :
    e = .noTerm ∨ e.IsOfToken ∨
      Token.scan s ≠ [] ∧ Token.covered (Token.scan s) ≠ Text.byteLength s.toList ∧
        e = .uncovered (Token.covered (Token.scan s)) (Text.byteLength s.toList) := by
  unfold fault? at h
  split at h
  · cases h
  · split at h
    · cases h
      exact .inl rfl
    · rename_i hscan
      split at h
      · rename_i hfirst
        cases h
        exact .inr (.inl (Token.isOfToken_of_firstFault? hfirst))
      · split at h
        · cases h
        · rename_i hcovered
          cases h
          exact .inr (.inr ⟨hscan, hcovered, rfl⟩)

theorem fault?_ne (hterm : e ≠ .noTerm) (htoken : ¬ e.IsOfToken)
    (hbytes : ∀ consumed length, e ≠ .uncovered consumed length) : fault? maxDepth s ≠ some e := by
  intro h
  rcases fault?_cases h with h | h | ⟨-, -, h⟩
  · exact hterm h
  · exact htoken h
  · exact hbytes _ _ h

/-- Joining symbols and operators are never at fault. -/
theorem fault?_ne_unknown (maxDepth : Nat) (s symbol : String) :
    fault? maxDepth s ≠ some (.unknownLogic symbol) ∧
      fault? maxDepth s ≠ some (.unknownOperator symbol) :=
  ⟨fault?_ne (by simp) not_false (by simp), fault?_ne (by simp) not_false (by simp)⟩

/-- A text is refused exactly if the count finds a fault, and for this fault. The symbols of its
terms are never to blame. -/
theorem parse_error_iff_fault (s : String) (maxDepth : Nat) :
    (∀ e, parse s maxDepth = .error e ↔ fault? maxDepth s = some e) ∧
      ((∃ q, parse s maxDepth = .ok q) ↔ fault? maxDepth s = none) ∧
      (∀ symbol, parse s maxDepth ≠ .error (.unknownLogic symbol) ∧
        parse s maxDepth ≠ .error (.unknownOperator symbol)) ∧
      ∀ value, Text.count? value = none ↔ ¬ DenotesCount value := by
  refine ⟨fun e => parse_eq_error_iff, ⟨?_, parse_of_no_fault⟩, ?_,
    fun value => count?_eq_none_iff⟩
  · rintro ⟨q, hq⟩
    cases hf : fault? maxDepth s with
    | none => rfl
    | some e =>
      rw [parse_of_fault hf] at hq
      cases hq
  · intro symbol
    rw [Ne, Ne, parse_eq_error_iff, parse_eq_error_iff]
    exact fault?_ne_unknown maxDepth s symbol

/-- Of several faults the first token's counts, and of this token's the one met first. -/
example : fault? 1 "((a=1)))&limit=x" = some (.tooDeep 1) := by
  decide +kernel

end Query
end UrlFilter
