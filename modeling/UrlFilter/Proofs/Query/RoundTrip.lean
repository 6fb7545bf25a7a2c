import UrlFilter.Proofs.Query.Directive
import UrlFilter.Proofs.Query.Shape

/-! Writing a filter and reading it back. Where groups begin or end together, their parentheses
stand at one term, so a filter is written by way of the terms of its text: `Term.lexemes` hands the
parentheses around a term down to the first and the last term inside. The induction over the tree
is for terms `rest` that follow, with the parentheses still to be opened and closed as numbers.

Main statements: every canonical filter is read back from its text, `parse_write`, and every filter
that a text has is canonical, `parse_write_of_parse`. -/
namespace UrlFilter

mutual

/-- The terms that a term of a filter is written as, joined by `logic`, behind `opens` and before
`closes` parentheses that belong to groups around it. -/
def Term.lexemes (logic : String) (opens closes : Nat) : Term → List Lexeme
  | predicate _ p =>
    [{ logic, opens, field := p.field, op := p.op.symbol, value := p.value, closes }]
  | group _ terms => lexemesOf logic (opens + 1) (closes + 1) terms

/-- The terms that a list of terms is written as. The first is joined by `logic`. -/
def Term.lexemesOf (logic : String) (opens closes : Nat) : List Term → List Lexeme
  | [] => []
  | [t] => t.lexemes logic opens closes
  | t :: u :: ts =>
    t.lexemes logic opens 0 ++ lexemesOf (u.link.symbol?.getD "") 0 closes (u :: ts)

end

/-- Whether the term is one that a canonical filter is written with, behind `depth` open groups. -/
structure Lexeme.IsWritten (maxDepth depth : Nat) (first : Bool) (x : Lexeme) : Prop where
  logic : x.logic = "&" ∨ x.logic = "|" ∨ first = true ∧ x.logic = ""
  test : ∃ p : Predicate, p.IsWritable ∧ x.field = p.field ∧ x.op = p.op.symbol ∧
    x.value = p.value
  opens_le : depth + x.opens ≤ maxDepth
  closes_le : x.closes ≤ depth + x.opens
  no_directive : depth + x.opens = 0 → ¬ x.IsDirective

/-- Whether a canonical filter is written with these terms, from the middle of it on. -/
def Lexeme.AreWritten (maxDepth : Nat) : Bool → Nat → List Lexeme → Prop
  | _, depth, [] => depth = 0
  | first, depth, x :: xs =>
    x.IsWritten maxDepth depth first ∧
      AreWritten maxDepth false (depth + x.opens - x.closes) xs

theorem Connective.symbol_of_joined {link : Connective} (h : link = .and ∨ link = .or) :
    (link.symbol?.getD "" = "&" ∨ link.symbol?.getD "" = "|") ∧
      ofSymbol? (link.symbol?.getD "") = some link := by
  rcases h with rfl | rfl
  · exact ⟨.inl rfl, rfl⟩
  · exact ⟨.inr rfl, rfl⟩

@[simp] theorem Term.withLink_link (t : Term) : t.withLink t.link = t := by
  cases t <;> rfl

theorem Filter.collapse_of_not_lone {f : Filter} (h : ∀ inner ts, f ≠ [.group inner ts]) :
    f.collapse = f := by
  unfold collapse
  split
  · rename_i inner ts
    exact absurd rfl (h inner ts)
  · rfl

variable {maxDepth : Nat}

/-! ## The text of the terms -/

mutual

theorem textOf_lexemes {depth : Nat} {t : Term} (h : t.IsCanonical maxDepth depth)
    (logic : String) (opens closes : Nat) :
    Lexeme.textOf (t.lexemes logic opens closes) = logic.toList ++
      (List.replicate opens '(' ++ (t.body.toList ++ List.replicate closes ')')) := by
  cases t with
  | predicate link p => simp [Term.lexemes, Lexeme.textOf, Lexeme.text, Term.body]
  | group link terms =>
    cases h with
    | group _ ne_nil _ linked canonical =>
      cases terms with
      | nil => exact absurd rfl ne_nil
      | cons u us =>
        have htext := textOf_lexemesOf canonical logic (opens + 1) (closes + 1)
        -- the first term of a group has no joining symbol of its own
        rw [Term.lexemes, htext, Term.body, Term.bodies, linked.1, List.replicate_succ',
          List.replicate_succ]
        simp [Connective.symbol?]
termination_by sizeOf t

theorem textOf_lexemesOf {depth : Nat} {t : Term} {ts : List Term}
    (h : ∀ u ∈ t :: ts, u.IsCanonical maxDepth depth) (logic : String) (opens closes : Nat) :
    Lexeme.textOf (Term.lexemesOf logic opens closes (t :: ts)) = logic.toList ++
      (List.replicate opens '(' ++ (t.body.toList ++ ((Term.bodies ts).toList ++
        List.replicate closes ')'))) := by
  have hfirst := textOf_lexemes (h t List.mem_cons_self) logic opens
  cases ts with
  | nil =>
    rw [Term.lexemesOf, hfirst]
    simp [Term.bodies]
  | cons u ts =>
    have hrest := textOf_lexemesOf (fun v hv => h v (List.mem_cons_of_mem t hv))
      (u.link.symbol?.getD "") 0 closes
    rw [Term.lexemesOf, Lexeme.textOf_append, hfirst, hrest, Term.bodies]
    simp
termination_by sizeOf (t :: ts)

end

/-! ## The terms are as the reader wants them -/

mutual

theorem areWritten_lexemes {t : Term} {first : Bool} {d opens closes : Nat} {logic : String}
    {rest : List Lexeme} (h : t.IsCanonical maxDepth (d + opens)) (hdepth : d + opens ≤ maxDepth)
    (hlogic : logic = "&" ∨ logic = "|" ∨ first = true ∧ logic = "")
    (hcloses : closes ≤ d + opens)
    (hrest : Lexeme.AreWritten maxDepth false (d + opens - closes) rest) :
    Lexeme.AreWritten maxDepth first d (t.lexemes logic opens closes ++ rest) := by
  cases t with
  | predicate link p =>
    cases h with
    | predicate writable no_directive =>
      exact ⟨⟨hlogic, ⟨p, writable, rfl, rfl, rfl⟩, hdepth, hcloses, no_directive⟩, hrest⟩
  | group link terms =>
    cases h with
    | group depth_lt ne_nil _ linked canonical =>
      cases terms with
      | nil => exact absurd rfl ne_nil
      | cons u us =>
        rw [Term.lexemes]
        refine areWritten_lexemesOf canonical linked.2 (by omega) hlogic (by omega) ?_
        rw [show d + (opens + 1) - (closes + 1) = d + opens - closes by omega]
        exact hrest
termination_by sizeOf t

theorem areWritten_lexemesOf {t : Term} {ts : List Term} {first : Bool} {d opens closes : Nat}
    {logic : String} {rest : List Lexeme}
    (h : ∀ u ∈ t :: ts, u.IsCanonical maxDepth (d + opens))
    (hlinks : ∀ u ∈ ts, u.link = .and ∨ u.link = .or) (hdepth : d + opens ≤ maxDepth)
    (hlogic : logic = "&" ∨ logic = "|" ∨ first = true ∧ logic = "")
    (hcloses : closes ≤ d + opens)
    (hrest : Lexeme.AreWritten maxDepth false (d + opens - closes) rest) :
    Lexeme.AreWritten maxDepth first d
      (Term.lexemesOf logic opens closes (t :: ts) ++ rest) := by
  have ht := h t List.mem_cons_self
  cases ts with
  | nil => exact areWritten_lexemes ht hdepth hlogic hcloses hrest
  | cons u ts =>
    rw [Term.lexemesOf, List.append_assoc]
    refine areWritten_lexemes ht hdepth hlogic (Nat.zero_le _) ?_
    -- behind the first term all groups are open that were to be opened
    obtain ⟨hsymbol, -⟩ := Connective.symbol_of_joined (hlinks u List.mem_cons_self)
    refine areWritten_lexemesOf (fun v hv => h v (List.mem_cons_of_mem t hv))
      (fun v hv => hlinks v (List.mem_cons_of_mem u hv)) hdepth ?_ hcloses hrest
    rcases hsymbol with hs | hs
    · exact .inl hs
    · exact .inr (.inl hs)
termination_by sizeOf (t :: ts)

end

namespace Lexeme

variable {depth : Nat} {first : Bool} {x : Lexeme} {xs : List Lexeme}

theorem IsWritten.isTerm (h : x.IsWritten maxDepth depth first) {rest : List Char}
    (hrest : StopsAt isValueChar rest) : x.IsTerm first rest := by
  obtain ⟨p, hp, hfield, hop, hvalue⟩ := h.test
  have htail := stopsAt_closes x.closes hrest
  refine ⟨h.logic, hfield ▸ hp.field_ne, hfield ▸ hp.field_chars, ?_, hvalue ▸ hp.value_ne,
    hvalue ▸ hp.value_chars⟩
  rw [afterField, hop, hvalue]
  exact hp.isFirstSpelling htail

theorem areTerms_of_areWritten (h : AreWritten maxDepth first depth xs) : AreTerms first xs := by
  induction xs generalizing first depth with
  | nil => trivial
  | cons x xs ih =>
    have hterms := ih h.2
    exact ⟨h.1.isTerm (Token.stopsAt_textOf hterms rfl rfl), hterms⟩

theorem not_needsCount_of_not_isDirective (h : ¬ x.IsDirective) : ¬ x.NeedsCount := by
  rintro (hl | ho)
  · exact h (.inl hl)
  · exact h (.inr (.inl ho))

theorem wellNested_of_areWritten (h : AreWritten maxDepth first depth xs) :
    WellNested maxDepth depth xs := by
  induction xs generalizing first depth with
  | nil => exact h
  | cons x xs ih =>
    refine ⟨h.1.opens_le, h.1.closes_le, ?_, ih h.2⟩
    intro h0 hcount
    exact absurd hcount (not_needsCount_of_not_isDirective (h.1.no_directive h0))

theorem directives_of_areWritten (h : AreWritten maxDepth first depth xs) :
    directives depth xs = [] := by
  induction xs generalizing first depth with
  | nil => rfl
  | cons x xs ih =>
    rw [directives, if_neg fun hd => h.1.no_directive hd.1 hd.2]
    exact ih h.2

end Lexeme

/-! ## The terms build the filter -/

namespace Stack

variable {s t : Stack}

theorem times?_succ_eq (f : Stack → Option Stack) (count : Nat) (s : Stack) :
    times? f (count + 1) s = (times? f count s).bind f := by
  induction count generalizing s with
  | zero => simp [times?]
  | succ count ih =>
    rw [times?]
    cases hs : f s with
    | none => simp [times?, hs]
    | some u =>
      rw [Option.bind_some, ih, times?, hs]
      rfl

mutual

/-- The terms of a term open the groups before it, add it, and close the groups behind it. -/
theorem build_lexemes {t : Term} {logic : String} {opens closes : Nat} {link : Connective}
    {s : Stack} {top : Filter} {below : List (Filter × Connective)} (rest : List Lexeme)
    (h : t.IsCanonical maxDepth below.length)
    (hopens : times? (push? logic) opens s = some ⟨top, below⟩)
    (hlink : joining? top logic = some link) :
    build? (t.lexemes logic opens closes ++ rest) s =
      (times? pop? closes ⟨top ++ [t.withLink link], below⟩).bind (build? rest) := by
  cases t with
  | predicate _ p =>
    cases h with
    | predicate _ no_directive =>
      have hadd : add? ⟨logic, opens, p.field, p.op.symbol, p.value, closes⟩ ⟨top, below⟩ =
          some ⟨top ++ [Term.predicate link p], below⟩ := by
        rw [add?, if_neg fun hd => no_directive hd.1 hd.2]
        simp [hlink, Lexeme.predicate?]
      show (step? _ s).bind (build? rest) = _
      rw [step?, hopens, Option.bind_some, hadd, Option.bind_some]
      rfl
  | group _ terms =>
    cases h with
    | group _ ne_nil not_lone linked canonical =>
      cases terms with
      | nil => exact absurd rfl ne_nil
      | cons u us =>
        have hinner : times? (push? logic) (opens + 1) s = some ⟨[], (top, link) :: below⟩ := by
          rw [times?_succ_eq, hopens, Option.bind_some, push?, hlink]
          rfl
        rw [Term.lexemes, build_lexemesOf rest canonical linked.2 hinner rfl, List.nil_append,
          ← linked.1, u.withLink_link]
        show (times? pop? closes ⟨top ++ [Term.group link (Filter.collapse (u :: us))],
          below⟩).bind (build? rest) = _
        rw [Filter.collapse_of_not_lone not_lone]
        rfl
termination_by sizeOf t

theorem build_lexemesOf {t : Term} {ts : List Term} {logic : String} {opens closes : Nat}
    {link : Connective} {s : Stack} {top : Filter} {below : List (Filter × Connective)}
    (rest : List Lexeme) (h : ∀ u ∈ t :: ts, u.IsCanonical maxDepth below.length)
    (hlinks : ∀ u ∈ ts, u.link = .and ∨ u.link = .or)
    (hopens : times? (push? logic) opens s = some ⟨top, below⟩)
    (hlink : joining? top logic = some link) :
    build? (Term.lexemesOf logic opens closes (t :: ts) ++ rest) s =
      (times? pop? closes ⟨top ++ t.withLink link :: ts, below⟩).bind (build? rest) := by
  have ht := h t List.mem_cons_self
  cases ts with
  | nil => exact build_lexemes rest ht hopens hlink
  | cons u ts =>
    -- the next terms follow the first, so their joining is their own
    obtain ⟨-, hsymbol⟩ := Connective.symbol_of_joined (hlinks u List.mem_cons_self)
    have hnext : joining? (top ++ [t.withLink link]) (u.link.symbol?.getD "") = some u.link := by
      rw [joining?, if_neg (by simp)]
      exact hsymbol
    rw [Term.lexemesOf, List.append_assoc, build_lexemes _ ht hopens hlink]
    show build? _ ⟨top ++ [t.withLink link], below⟩ = _
    rw [build_lexemesOf rest (fun v hv => h v (List.mem_cons_of_mem t hv))
      (fun v hv => hlinks v (List.mem_cons_of_mem u hv)) rfl hnext]
    simp
termination_by sizeOf (t :: ts)

end

end Stack

/-! ## From the filter to the text and back -/

/-- A canonical filter is written with terms that build it. -/
theorem Filter.IsCanonical.exists_lexemes {f : Filter} (h : f.IsCanonical maxDepth)
    (hne : f ≠ []) :
    ∃ xs : List Lexeme, xs ≠ [] ∧ f.write.toList = Lexeme.textOf xs ∧
      Lexeme.AreWritten maxDepth true 0 xs ∧ Stack.build? xs {} = some ⟨f, []⟩ := by
  cases f with
  | nil => exact absurd rfl hne
  | cons t ts =>
    have htext := textOf_lexemesOf h.terms "" 0 0
    have hwritten : Lexeme.AreWritten maxDepth true 0 (Term.lexemesOf "" 0 0 (t :: ts) ++ []) :=
      areWritten_lexemesOf h.terms h.linked.2 (Nat.zero_le _) (.inr (.inr ⟨rfl, rfl⟩))
        (Nat.le_refl _) rfl
    have hopens : Stack.times? (Stack.push? "") 0 {} = some {} := rfl
    have hlink : Stack.joining? [] "" = some .start := rfl
    have hbuild : Stack.build? (Term.lexemesOf "" 0 0 (t :: ts) ++ []) {} =
        some ⟨t.withLink .start :: ts, []⟩ :=
      Stack.build_lexemesOf [] h.terms h.linked.2 hopens hlink
    rw [List.append_nil] at hwritten hbuild
    rw [← h.linked.1, t.withLink_link] at hbuild
    refine ⟨Term.lexemesOf "" 0 0 (t :: ts), ?_, ?_, hwritten, hbuild⟩
    · intro hnil
      rw [hnil] at hbuild
      cases hbuild
    · rw [htext, write, Term.bodies, h.linked.1]
      simp [Connective.symbol?]

namespace Query

/-- A text of written terms says the filter that they build and nothing else. -/
theorem parse_of_areWritten {s : String} {xs : List Lexeme} {f : Filter} (hne : xs ≠ [])
    (htext : s.toList = Lexeme.textOf xs) (hwritten : Lexeme.AreWritten maxDepth true 0 xs)
    (hbuild : Stack.build? xs {} = some ⟨f, []⟩) : parse s maxDepth = .ok { filter := f } := by
  have hterms := Lexeme.areTerms_of_areWritten hwritten
  obtain ⟨q, hq⟩ := parse_of_textOf hne htext hterms (Lexeme.wellNested_of_areWritten hwritten)
  have hscan : (Token.scan s).map Token.toLexeme = xs := by
    rw [Token.scan, htext]
    exact (Token.scanFrom_textOf 0 hterms).1
  have hfilter := build_of_parse hq
  have hdirectives := directives_of_parse hq
  rw [hscan, hbuild] at hfilter
  rw [hscan, Lexeme.directives_of_areWritten hwritten] at hdirectives
  obtain ⟨d, filter⟩ := q
  cases hfilter
  cases hdirectives
  exact hq

/-- Every canonical filter is what its text says. -/
theorem parse_write (maxDepth : Nat) (f : Filter) (hne : f ≠ []) (h : f.IsCanonical maxDepth) :
    parse f.write maxDepth =
      .ok { sort := [], options := ∅, limit := 0, offset := 0, filter := f } := by
  obtain ⟨xs, hxs, htext, hwritten, hbuild⟩ := h.exists_lexemes hne
  exact parse_of_areWritten hxs htext hwritten hbuild

/-- Inside a group a field may have the name of a directive, and a value may begin with `(`. -/
theorem parse_write_nested :
    ∃ f : Filter, f = [.predicate .start ⟨.lessEqual, "a", "1"⟩,
        .group .or [.group .start [.predicate .start ⟨.equal, "limit", "2"⟩],
          .predicate .and ⟨.regex, "b", "(x"⟩]] ∧
      f.write = "a<=1|((limit=2)&b:(x)" ∧ f ≠ [] ∧ f.IsCanonical 2 ∧
      parse f.write 2 = .ok { sort := [], options := ∅, limit := 0, offset := 0, filter := f } := by
  have ha : Predicate.IsWritable ⟨.lessEqual, "a", "1"⟩ :=
    ⟨by decide, by simp [isFieldChar], by decide, by simp [isValueChar],
      ["!=~~", "=~~", "!=~", "!:~", "=~", "!:", ":~"], _, rfl, by simp [Operator.symbol]⟩
  have hlimit : Predicate.IsWritable ⟨.equal, "limit", "2"⟩ :=
    ⟨by decide, by simp [isFieldChar], by decide, by simp [isValueChar],
      ["!=~~", "=~~", "!=~", "!:~", "=~", "!:", ":~", "<=", "=<", ">=", "=>", "!=", ":", "<", ">"],
      _, rfl, by simp [Operator.symbol]⟩
  have hb : Predicate.IsWritable ⟨.regex, "b", "(x"⟩ :=
    ⟨by decide, by simp [isFieldChar], by decide, by simp [isValueChar],
      ["!=~~", "=~~", "!=~", "!:~", "=~", "!:", ":~", "<=", "=<", ">=", "=>", "!="], _, rfl,
      by simp [Operator.symbol]⟩
  have hinner : Term.IsCanonical 2 1
      (.group .start [.predicate .start ⟨.equal, "limit", "2"⟩]) :=
    .group (by decide) (by simp) (by simp) (by simp [Filter.IsLinked, Term.link])
      (by simpa using .predicate hlimit (by decide))
  have houter : Term.IsCanonical 2 0
      (.group .or [.group .start [.predicate .start ⟨.equal, "limit", "2"⟩],
        .predicate .and ⟨.regex, "b", "(x"⟩]) :=
    .group (by decide) (by simp) (by simp) (by simp [Filter.IsLinked, Term.link])
      (by simpa using ⟨hinner, .predicate hb (by decide)⟩)
  have hf : Filter.IsCanonical 2 [.predicate .start ⟨.lessEqual, "a", "1"⟩,
      .group .or [.group .start [.predicate .start ⟨.equal, "limit", "2"⟩],
        .predicate .and ⟨.regex, "b", "(x"⟩]] :=
    ⟨by simp [Filter.IsLinked, Term.link], by simpa using ⟨.predicate ha (by decide), houter⟩⟩
  exact ⟨_, rfl, by decide +kernel, by simp, hf, parse_write 2 _ (by simp) hf⟩

/-- What a text can be parsed to is canonical, and is what its own text says. -/
theorem parse_write_of_parse (s : String) (maxDepth : Nat) (q : Query)
    (h : parse s maxDepth = .ok q) :
    q.filter.IsCanonical maxDepth ∧ q.filter.nesting ≤ maxDepth ∧
      parse q.filter.write maxDepth = .ok { filter := q.filter } := by
  have hcanonical := filter_isCanonical h
  refine ⟨hcanonical, hcanonical.nesting_le, ?_⟩
  by_cases hne : q.filter = []
  · rw [hne]
    exact parse_empty maxDepth
  · obtain ⟨xs, hxs, htext, hwritten, hbuild⟩ := hcanonical.exists_lexemes hne
    exact parse_of_areWritten hxs htext hwritten hbuild

/-- A second spelling and a second pair of parentheses are not written again. -/
theorem parse_write_of_parse_stacked :
    ∃ q, parse "a=<1|((b=2))&sort=c" 2 = .ok q ∧ q.filter.write = "a<=1|(b=2)" ∧
      q.filter.IsCanonical 2 ∧ q.filter.nesting ≤ 2 ∧
      parse q.filter.write 2 = .ok { filter := q.filter } := by
  have h : parse "a=<1|((b=2))&sort=c" 2 = .ok {
      sort := [⟨"c", false⟩]
      filter := [.predicate .start ⟨.lessEqual, "a", "1"⟩,
        .group .or [.predicate .start ⟨.equal, "b", "2"⟩]] } :=
    eq_ok_of_toOption (by decide +kernel)
  exact ⟨_, h, by decide +kernel, parse_write_of_parse _ 2 _ h⟩

end Query
end UrlFilter
