import UrlFilter.Proofs.Query.Fault

/-! The grammar of query texts. A text is a query if it is empty or made of terms whose
parentheses are balanced and not too deep, and whose counts are counts. `parse_succeeds_iff` says
that these are the texts that can be parsed; nothing of them is ever passed over. -/
namespace UrlFilter

/-- Whether the text is an optional `+` and at least one ASCII digit, for a number of at most 64
bits. -/
def DenotesCount (value : String) : Prop :=
  ∃ digits : List Char, (value.toList = digits ∨ value.toList = '+' :: digits) ∧ digits ≠ [] ∧
    (∀ c ∈ digits, Text.isDigit c = true) ∧ Nat.ofDigitChars 10 digits 0 < UInt64.size

/-- Whether the parentheses of terms close the `depth` groups that are open before them, with at
most `maxDepth` open at a time, and the directives outside all groups have counts where they need
them. -/
def WellNested (maxDepth : Nat) : Nat → List Lexeme → Prop
  | depth, [] => depth = 0
  | depth, x :: xs =>
    depth + x.opens ≤ maxDepth ∧ x.closes ≤ depth + x.opens ∧
      (depth + x.opens = 0 → x.NeedsCount → DenotesCount x.value) ∧
      WellNested maxDepth (depth + x.opens - x.closes) xs

theorem natural?_eq_some_iff {digits : List Char} {n : Nat} :
    Text.natural? digits = some n ↔
      digits ≠ [] ∧ (∀ c ∈ digits, Text.isDigit c = true) ∧ n = Nat.ofDigitChars 10 digits 0 := by
  unfold Text.natural?
  constructor
  · intro h
    split at h
    · rename_i hd
      exact ⟨hd.1, List.all_eq_true.mp hd.2, (Option.some.inj h).symm⟩
    · simp at h
  · rintro ⟨hne, hd, rfl⟩
    rw [if_pos ⟨hne, List.all_eq_true.mpr hd⟩]

theorem dropPlus_of_digits {digits : List Char} (h : ∀ c ∈ digits, Text.isDigit c = true) :
    Text.dropPlus digits = digits := by
  unfold Text.dropPlus
  split
  · have := h '+' (by simp)
    simp [Text.isDigit] at this
  · rfl

/-- The texts that are read as counts are those that denote one. -/
theorem isSome_count?_iff {value : String} :
    (Text.count? value).isSome ↔ DenotesCount value := by
  unfold Text.count? DenotesCount
  constructor
  · intro h
    split at h
    · rename_i n hn
      split at h
      · rename_i hlt
        obtain ⟨hne, hd, rfl⟩ := natural?_eq_some_iff.mp hn
        refine ⟨Text.dropPlus value.toList, ?_, hne, hd, hlt⟩
        unfold Text.dropPlus
        split
        · rename_i cs hcs
          exact .inr hcs
        · exact .inl rfl
      · simp at h
    · simp at h
  · rintro ⟨digits, hv, hne, hd, hlt⟩
    have hdrop : Text.dropPlus value.toList = digits := by
      rcases hv with hv | hv
      · rw [hv]
        exact dropPlus_of_digits hd
      · rw [hv]
        rfl
    rw [hdrop, natural?_eq_some_iff.mpr ⟨hne, hd, rfl⟩]
    dsimp only
    rw [if_pos hlt]
    rfl

theorem count?_eq_none_iff {value : String} : Text.count? value = none ↔ ¬ DenotesCount value := by
  rw [← isSome_count?_iff, Option.not_isSome_iff_eq_none]

theorem fault?_eq_none_iff_denotesCount {maxDepth depth : Nat} {token : Token} :
    token.fault? maxDepth depth = none ↔
      depth + token.opens ≤ maxDepth ∧ token.closes ≤ depth + token.opens ∧
        (depth + token.opens = 0 → token.NeedsCount → DenotesCount token.value) := by
  rw [Token.fault?_eq_none_iff, count?_eq_none_iff]
  constructor
  · rintro ⟨hdeep, hcount, hclose⟩
    exact ⟨hdeep, hclose, fun h0 hn =>
      Classical.byContradiction fun hvalue => hcount ⟨h0, hn, hvalue⟩⟩
  · rintro ⟨hdeep, hclose, hcount⟩
    exact ⟨hdeep, fun ⟨h0, hn, hvalue⟩ => hvalue (hcount h0 hn), hclose⟩

/-- Terms are well nested exactly if none of their tokens is at fault. -/
theorem firstFault?_eq_none_iff {maxDepth length depth : Nat} {tokens : List Token} :
    Token.firstFault? maxDepth length depth tokens = none ↔
      WellNested maxDepth depth (tokens.map Token.toLexeme) := by
  induction tokens generalizing depth with
  | nil => simp [Token.firstFault?, WellNested]
  | cons token rest ih =>
    rw [Token.firstFault?, List.map_cons, WellNested, ← ih, ← and_assoc, ← and_assoc,
      and_assoc (a := depth + token.opens ≤ maxDepth), ← fault?_eq_none_iff_denotesCount]
    cases token.fault? maxDepth depth with
    | none => simp
    | some e => simp

namespace Query

/-- A text that can be parsed is the sequence of the terms that the scanner finds. -/
theorem textOf_scan_of_parse {s : String} {maxDepth : Nat} {q : Query}
    (h : parse s maxDepth = .ok q) :
    s.toList = Lexeme.textOf ((Token.scan s).map Token.toLexeme) ∧
      Lexeme.AreTerms true ((Token.scan s).map Token.toLexeme) ∧
      WellNested maxDepth 0 ((Token.scan s).map Token.toLexeme) := by
  obtain ⟨-, hcovered, p, hrun, -⟩ := parse_eq_ok_iff.mp h
  obtain ⟨htext, hterms⟩ := Token.eq_textOf_of_covered hcovered
  refine ⟨htext, hterms, ?_⟩
  cases hf : Token.firstFault? maxDepth (Text.byteLength s.toList) 0 (Token.scan s) with
  | none => exact firstFault?_eq_none_iff.mp hf
  | some e =>
    -- a fault would have ended the pass with an error
    have herror := Stack.run_of_fault (s := {}) (p := .start (Token.scan s)) (fun _ => rfl)
      (Token.areScanned_scan s) (Nat.zero_le maxDepth) hf
    rw [hrun] at herror
    simp at herror

/-- A sequence of well-nested terms can be parsed. -/
theorem parse_of_textOf {s : String} {maxDepth : Nat} {xs : List Lexeme} (hne : xs ≠ [])
    (htext : s.toList = Lexeme.textOf xs) (hterms : Lexeme.AreTerms true xs)
    (hnested : WellNested maxDepth 0 xs) : ∃ q, parse s maxDepth = .ok q := by
  obtain ⟨hxs, hcovered⟩ := Token.scanFrom_textOf 0 hterms
  rw [← htext] at hxs hcovered
  have hnone : Token.firstFault? maxDepth (Text.byteLength s.toList) 0 (Token.scan s) = none := by
    apply firstFault?_eq_none_iff.mpr
    rw [show (Token.scan s).map Token.toLexeme = xs from hxs]
    exact hnested
  obtain ⟨⟨filter, p⟩, hrun⟩ := Stack.run_of_no_fault (s := {}) (p := .start (Token.scan s))
    (fun _ => rfl) (Token.areScanned_scan s) hnone
  refine ⟨{ p.directives with filter }, parse_eq_ok_iff.mpr ⟨.inr ?_, hcovered, p, hrun, rfl⟩⟩
  intro hnil
  exact hne (by rw [← hxs, show Token.scanFrom 0 s.toList = [] from hnil]; rfl)

/-- A text can be parsed exactly if it is empty or a sequence of well-nested terms and nothing
else. -/
theorem parse_succeeds_iff (s : String) (maxDepth : Nat) :
    (∃ q, parse s maxDepth = .ok q) ↔
      s = "" ∨ ∃ xs : List Lexeme, xs ≠ [] ∧ s.toList = Lexeme.textOf xs ∧
        Lexeme.AreTerms true xs ∧ WellNested maxDepth 0 xs := by
  constructor
  · rintro ⟨q, h⟩
    rcases (parse_eq_ok_iff.mp h).1 with hs | hs
    · exact .inl hs
    · exact .inr ⟨_, by simpa using hs, textOf_scan_of_parse h⟩
  · rintro (rfl | ⟨xs, hne, htext, hterms, hnested⟩)
    · exact ⟨{}, parse_empty maxDepth⟩
    · exact parse_of_textOf hne htext hterms hnested

end Query
end UrlFilter
