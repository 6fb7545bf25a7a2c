import UrlFilter.Proofs.Query.Directive
import UrlFilter.Proofs.Query.Grammar

/-! Queries by their terms. A text that can be parsed is its terms written one after another, and
these terms say all of its query: `spell_of_parse` and `parse_of_spell` pass from a text to its
terms and back. What is proved of lists of terms is in this way proved of texts. -/
namespace UrlFilter

/-- Whether the terms, written one after another, say the query. -/
structure Lexeme.Spell (maxDepth : Nat) (xs : List Lexeme) (q : Query) : Prop where
  terms : AreTerms true xs
  nested : WellNested maxDepth 0 xs
  filter : Stack.build? xs {} = some ⟨q.filter, []⟩
  directives : q.toDirectives = (directives 0 xs).foldl Directives.apply {}

theorem WellNested.of_le {maxDepth maxDepth' depth : Nat} {xs : List Lexeme}
    (h : WellNested maxDepth depth xs) (hle : maxDepth ≤ maxDepth') :
    WellNested maxDepth' depth xs := by
  induction xs generalizing depth with
  | nil => exact h
  | cons x xs ih =>
    obtain ⟨hdepth, hcloses, hcount, hrest⟩ := h
    exact ⟨Nat.le_trans hdepth hle, hcloses, hcount, ih hrest⟩

/-- What terms say does not hang on the limit that they keep. -/
theorem Lexeme.Spell.of_le {maxDepth maxDepth' : Nat} {xs : List Lexeme} {q : Query}
    (h : Lexeme.Spell maxDepth xs q) (hle : maxDepth ≤ maxDepth') :
    Lexeme.Spell maxDepth' xs q :=
  { h with nested := h.nested.of_le hle }

namespace Query

variable {s : String} {maxDepth : Nat} {q q' : Query} {xs : List Lexeme}

/-- The terms that the scanner finds in a text. -/
def terms (s : String) : List Lexeme :=
  (Token.scan s).map Token.toLexeme

/-- The terms of a text that are directives, in their order. -/
def directing (s : String) : List Lexeme :=
  Lexeme.directives 0 (terms s)

theorem spell_of_parse (h : parse s maxDepth = .ok q) :
    s.toList = Lexeme.textOf (terms s) ∧ Lexeme.Spell maxDepth (terms s) q := by
  obtain ⟨htext, hterms, hnested⟩ := textOf_scan_of_parse h
  exact ⟨htext, hterms, hnested, build_of_parse h, directives_of_parse h⟩

theorem terms_of_textOf (htext : s.toList = Lexeme.textOf xs) (h : Lexeme.AreTerms true xs) :
    terms s = xs := by
  rw [terms, Token.scan, htext]
  exact (Token.scanFrom_textOf 0 h).1

/-- Terms say one query. -/
theorem eq_of_spell (h : Lexeme.Spell maxDepth xs q) (h' : Lexeme.Spell maxDepth xs q') :
    q = q' := by
  obtain ⟨d, filter⟩ := q
  obtain ⟨d', filter'⟩ := q'
  obtain rfl : d = d' := h.directives.trans h'.directives.symm
  obtain rfl : filter = filter' :=
    congrArg Stack.top (Option.some.inj (h.filter.symm.trans h'.filter))
  rfl

theorem parse_of_spell (htext : s.toList = Lexeme.textOf xs) (h : Lexeme.Spell maxDepth xs q) :
    parse s maxDepth = .ok q := by
  cases xs with
  | nil =>
    obtain rfl : s = "" := String.toList_inj.mp htext
    have hnothing : Lexeme.Spell maxDepth [] ({} : Query) := ⟨trivial, rfl, rfl, rfl⟩
    rw [parse_empty, eq_of_spell h hnothing]
  | cons x xs =>
    obtain ⟨q', hq'⟩ := parse_of_textOf (List.cons_ne_nil x xs) htext h.terms h.nested
    obtain ⟨-, hspell⟩ := spell_of_parse hq'
    rw [terms_of_textOf htext h.terms] at hspell
    rw [hq', eq_of_spell h hspell]

end Query
end UrlFilter
