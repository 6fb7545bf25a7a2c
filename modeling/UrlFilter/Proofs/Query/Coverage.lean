import UrlFilter.Log
import UrlFilter.Proofs.Query.Verdict
import UrlFilter.Proofs.Token.Layout

/-! The check that nothing of a text is passed over. The lengths of the terms are added up and
compared with the length of the text. By `bytes_tell_coverage` this tells whether the terms lie side
by side from the start of the text to its end, and where they do not, there is a gap to report. -/
namespace UrlFilter.Query

variable {s : String} {maxDepth : Nat}

/-- A text is refused for its bytes only where its tokens cover too few of them. -/
theorem covered_lt_of_parse {consumed length : Nat}
    (h : parse s maxDepth = .error (.uncovered consumed length)) :
    Token.scan s ≠ [] ∧ consumed = Token.covered (Token.scan s) ∧
      length = Text.byteLength s.toList ∧ consumed < length := by
  rcases fault?_cases (parse_eq_error_iff.mp h) with h | h | ⟨hscan, hne, h⟩
  · cases h
  · exact h.elim
  · cases h
    exact ⟨hscan, rfl, rfl, Nat.lt_of_le_of_ne (Token.covered_scan_le s) hne⟩

/-- Where bytes are left over, the first gap is reported, with the text in it. -/
theorem ofParse_of_uncovered {consumed length : Nat}
    (h : parse s maxDepth = .error (.uncovered consumed length)) :
    Log.ofParse s maxDepth =
      [.scanned (Token.scan s).length, .uncovered (Token.gap s) ((Token.gap s).slice s)] := by
  obtain ⟨hscan, -, rfl, -⟩ := covered_lt_of_parse h
  rw [Log.ofParse, if_neg (by simpa using hscan), h]
  rfl

/-- Adding up the bytes of the tokens tells whether they cover their text. Each of them lies in the
text, and they lie one behind the other, so that they never have more bytes than the text; they have
as many exactly if they lie side by side. A text that is refused for its bytes has fewer of them
covered than there are, and the gap that is reported is the first one. -/
theorem bytes_tell_coverage (s : String) (hscan : Token.scan s ≠ []) :
    (∀ token ∈ Token.scan s, token.LiesIn s) ∧
    (Token.scan s).Pairwise (fun t u =>
      t.span.start < u.span.start ∧ t.span.stop ≤ u.span.start) ∧
    Token.covered (Token.scan s) ≤ Text.byteLength s.toList ∧
    (Token.covered (Token.scan s) = Text.byteLength s.toList ↔
      Token.SideBySide (Text.byteLength s.toList) (Token.scan s)) ∧
    (∀ maxDepth q, parse s maxDepth = .ok q →
      Token.SideBySide (Text.byteLength s.toList) (Token.scan s)) ∧
    ∀ maxDepth consumed length, parse s maxDepth = .error (.uncovered consumed length) →
      consumed = Token.covered (Token.scan s) ∧ length = Text.byteLength s.toList ∧
      consumed < length ∧
      ∃ gap : Span, gap = Token.firstGap length {} (Token.scan s) ∧
        Log.ofParse s maxDepth =
          [.scanned (Token.scan s).length, .uncovered gap (gap.slice s)] ∧
        gap.start < gap.stop ∧
        Text.IsBoundary s.toList gap.start ∧ Text.IsBoundary s.toList gap.stop ∧
        Token.IsFirstGap length 0 (Token.scan s) gap := by
  refine ⟨fun token => Token.liesIn_of_mem_scan, (Token.laidOut_scan s).pairwise,
    Token.covered_scan_le s, Token.covered_scan_eq_iff hscan, fun maxDepth q hq => ?_,
    fun maxDepth consumed length herror => ?_⟩
  · exact (Token.covered_scan_eq_iff hscan).mp (parse_eq_ok_iff.mp hq).2.1
  · obtain ⟨-, rfl, rfl, hlt⟩ := covered_lt_of_parse herror
    exact ⟨rfl, rfl, hlt, Token.gap s, rfl, ofParse_of_uncovered herror,
      Token.gap_start_lt_stop hlt, Token.gap_start_isBoundary s, Token.gap_stop_isBoundary s,
      Token.isFirstGap_gap s⟩

/-- Of two joining symbols in a row the first belongs to no term. The letter before them takes two
bytes. -/
theorem bytes_tell_coverage_doubled :
    Token.scan "a=ü&&b=1" ≠ [] ∧
      (∀ token ∈ Token.scan "a=ü&&b=1", token.LiesIn "a=ü&&b=1") ∧
      parse "a=ü&&b=1" = .error (.uncovered 8 9) ∧
      ¬ Token.SideBySide 9 (Token.scan "a=ü&&b=1") ∧
      Log.ofParse "a=ü&&b=1" 32 = [.scanned 2, .uncovered ⟨4, 5⟩ "&"] ∧
      Token.IsFirstGap 9 0 (Token.scan "a=ü&&b=1") ⟨4, 5⟩ := by
  have hscan : Token.scan "a=ü&&b=1" ≠ [] := by decide +kernel
  have hfault : fault? 32 "a=ü&&b=1" = some (.uncovered 8 9) := by decide +kernel
  have hcovered : Token.covered (Token.scan "a=ü&&b=1") ≠ 9 := by decide +kernel
  have hgap : Token.firstGap 9 {} (Token.scan "a=ü&&b=1") = ⟨4, 5⟩ := by decide +kernel
  have herror := parse_of_fault hfault
  obtain ⟨hlies, -, -, hsum, -, hrefused⟩ := bytes_tell_coverage _ hscan
  obtain ⟨-, -, -, gap, rfl, -, -, -, -, hfirst⟩ := hrefused 32 8 9 herror
  rw [hgap] at hfirst
  exact ⟨hscan, hlies, herror, fun hside => hcovered (hsum.mpr hside), by decide +kernel, hfirst⟩

end UrlFilter.Query
