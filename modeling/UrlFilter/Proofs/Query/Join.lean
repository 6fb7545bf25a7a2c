import UrlFilter.Proofs.Query.Behind

/-! Texts that are joined by a symbol. The terms of the joined text are those of the first text and
those of the second with the symbol before the first of them; what they say is the second query
behind the first: `parse_join`. -/
namespace UrlFilter

section Append

variable {maxDepth depth : Nat} {xs ys : List Lexeme}

theorem WellNested.append (hx : WellNested maxDepth depth xs) (hy : WellNested maxDepth 0 ys) :
    WellNested maxDepth depth (xs ++ ys) := by
  induction xs generalizing depth with
  | nil =>
    obtain rfl : depth = 0 := hx
    exact hy
  | cons x xs ih => exact ⟨hx.1, hx.2.1, hx.2.2.1, ih hx.2.2.2⟩

namespace Lexeme

theorem directives_append (hx : WellNested maxDepth depth xs) :
    directives depth (xs ++ ys) = directives depth xs ++ directives 0 ys := by
  induction xs generalizing depth with
  | nil =>
    obtain rfl : depth = 0 := hx
    rfl
  | cons x xs ih =>
    rw [List.cons_append, directives, directives, ih hx.2.2.2]
    split
    · rfl
    · rfl

theorem withoutDirectives_append (hx : WellNested maxDepth depth xs) :
    withoutDirectives depth (xs ++ ys) =
      withoutDirectives depth xs ++ withoutDirectives 0 ys := by
  induction xs generalizing depth with
  | nil =>
    obtain rfl : depth = 0 := hx
    rfl
  | cons x xs ih =>
    rw [List.cons_append, withoutDirectives, withoutDirectives, ih hx.2.2.2]
    split
    · rfl
    · rfl

end Lexeme
end Append

namespace Lexeme

variable {maxDepth : Nat} {name : String} {x : Lexeme} {xs ds : List Lexeme}

theorem getD_lastCount?_of_forall_ne (h : ∀ x ∈ ds, x.field ≠ name) (n : UInt64) :
    (lastCount? name ds).getD n = n := by
  have hnone : ds.filterMap (count? name) = [] :=
    List.filterMap_eq_nil_iff.mpr fun x hx => if_neg (h x hx)
  rw [lastCount?, hnone]
  rfl

theorem getD_lastCount?_of_exists (h : ∀ x ∈ ds, x.field = name → DenotesCount x.value)
    (hname : ∃ x ∈ ds, x.field = name) (m n : UInt64) :
    (lastCount? name ds).getD m = (lastCount? name ds).getD n := by
  obtain ⟨x, hx, hfield⟩ := hname
  obtain ⟨k, hk⟩ := Option.isSome_iff_exists.mp (isSome_count?_iff.mpr (h x hx hfield))
  have hmem : k ∈ ds.filterMap (count? name) :=
    List.mem_filterMap.mpr ⟨x, hx, by rw [count?, if_pos hfield, hk]⟩
  rw [lastCount?, List.getLast?_eq_some_getLast (List.ne_nil_of_mem hmem)]
  rfl

/-- The terms with another symbol before the first of them. -/
def resymbol (symbol : String) : List Lexeme → List Lexeme
  | [] => []
  | x :: xs => { x with logic := symbol } :: xs

theorem textOf_resymbol (symbol : String) (h : ∀ x ∈ xs.head?, x.logic = "") (hne : xs ≠ []) :
    textOf (resymbol symbol xs) = symbol.toList ++ textOf xs := by
  cases xs with
  | nil => exact absurd rfl hne
  | cons x xs =>
    rw [resymbol, textOf, textOf, text, text, h x rfl]
    simp

theorem areTerms_resymbol {first : Bool} {symbol : String} (hsymbol : symbol = "&" ∨ symbol = "|")
    (h : AreTerms first xs) : AreTerms false (resymbol symbol xs) := by
  cases xs with
  | nil => trivial
  | cons x xs =>
    refine ⟨{ h.1 with logic := ?_ }, h.2⟩
    rcases hsymbol with rfl | rfl
    · exact .inl rfl
    · exact .inr (.inl rfl)

theorem wellNested_resymbol {depth : Nat} (symbol : String) (h : WellNested maxDepth depth xs) :
    WellNested maxDepth depth (resymbol symbol xs) := by
  cases xs with
  | nil => exact h
  | cons x xs => exact h

theorem directives_resymbol (depth : Nat) (symbol : String) (xs : List Lexeme) :
    (directives depth (resymbol symbol xs)).map (fun x => (x.field, x.value)) =
      (directives depth xs).map (fun x => (x.field, x.value)) := by
  cases xs with
  | nil => rfl
  | cons x xs =>
    show List.map _ (if depth + x.opens = 0 ∧ x.IsDirective then _ else _) = _
    rw [directives]
    split
    · rfl
    · rfl

/-- A directive at the front takes the symbol with it. -/
theorem withoutDirectives_resymbol (depth : Nat) (symbol : String) (xs : List Lexeme) :
    withoutDirectives depth (resymbol symbol xs) = withoutDirectives depth xs ∨
      withoutDirectives depth (resymbol symbol xs) =
        resymbol symbol (withoutDirectives depth xs) := by
  cases xs with
  | nil => exact .inl rfl
  | cons x xs =>
    by_cases hdirective : depth + x.opens = 0 ∧ x.IsDirective
    · refine .inl ?_
      rw [withoutDirectives, if_pos hdirective]
      exact if_pos hdirective
    · refine .inr ?_
      rw [withoutDirectives, if_neg hdirective]
      exact if_neg hdirective

/-- The first term that is no directive is the same one, save for its symbol. -/
theorem head_withoutDirectives_resymbol {depth : Nat} {symbol : String}
    (hx : (withoutDirectives depth (resymbol symbol xs)).head? = some x) :
    ∃ y, (withoutDirectives depth xs).head? = some y ∧ x = { y with logic := x.logic } := by
  rcases withoutDirectives_resymbol depth symbol xs with heq | heq
  · rw [heq] at hx
    exact ⟨x, hx, rfl⟩
  · rw [heq] at hx
    cases hrest : withoutDirectives depth xs with
    | nil =>
      rw [hrest] at hx
      cases hx
    | cons y ys =>
      rw [hrest] at hx
      cases hx
      exact ⟨y, rfl, rfl⟩

theorem exists_link_of_areTerms (h : AreTerms false xs) :
    ∃ link, ∀ x ∈ xs.head?, Connective.ofSymbol? x.logic = some link := by
  cases xs with
  | nil => exact ⟨.start, nofun⟩
  | cons x xs =>
    rcases h.1.logic with hl | hl | ⟨hf, -⟩
    · exact ⟨.and, fun y hy => by cases hy; rw [hl]; rfl⟩
    · exact ⟨.or, fun y hy => by cases hy; rw [hl]; rfl⟩
    · cases hf

end Lexeme

namespace Stack

variable {xs ys : List Lexeme} {f g : Filter}

theorem build_resymbol (symbol : String) (xs : List Lexeme) :
    build? (Lexeme.resymbol symbol xs) {} = build? xs {} := by
  cases xs with
  | nil => rfl
  | cons x xs =>
    rw [Lexeme.resymbol, build?, build?, step_of_top_nil rfl]

/-- The terms of two filters one behind the other build the filters one behind the other. -/
theorem build_join (hf : build? xs {} = some ⟨f, []⟩) (hg : build? ys {} = some ⟨g, []⟩)
    (hterms : Lexeme.AreTerms false ys) :
    ∃ link, (∀ x ∈ (Lexeme.withoutDirectives 0 ys).head?,
        Connective.ofSymbol? x.logic = some link) ∧
      build? (xs ++ ys) {} = some ⟨if f = [] then g else f ++ g.relink link, []⟩ := by
  obtain ⟨link, hlink⟩ := Lexeme.exists_link_of_areTerms
    (hterms.sublist (Lexeme.withoutDirectives_sublist 0 ys))
  refine ⟨link, hlink, ?_⟩
  rw [build_append, hf, Option.bind_some]
  by_cases hnone : f = []
  · rw [if_pos hnone, hnone]
    exact hg
  · have honto := build_onto hnone (s := {}) (fun x hx _ => hlink x hx) hg
    have hstart : onto f link {} = ⟨f, []⟩ := congrArg (Stack.mk · []) (List.append_nil f)
    rw [hstart] at honto
    rw [if_neg hnone]
    exact honto

/-- Terms that are all directives build nothing. -/
theorem eq_nil_of_build {maxDepth : Nat} (hnested : WellNested maxDepth 0 xs)
    (hnone : Lexeme.withoutDirectives 0 xs = []) (h : build? xs {} = some ⟨f, []⟩) : f = [] := by
  have hbuild := build_withoutDirectives (s := {}) hnested
  rw [show Lexeme.withoutDirectives (height {}) xs = [] from hnone, h] at hbuild
  exact (congrArg Stack.top (Option.some.inj hbuild)).symm

end Stack

namespace Directives

variable {d : Directives} {ds : List Lexeme}

theorem sort_foldl_apply :
    (ds.foldl apply d).sort = d.sort ++ (ds.foldl apply {}).sort := by
  rw [foldl_apply, foldl_apply]
  rfl

theorem contains_foldl_apply (name : String) :
    (ds.foldl apply d).options.contains name =
      (d.options.contains name || (ds.foldl apply {}).options.contains name) := by
  rw [foldl_apply, foldl_apply]
  dsimp only
  rw [OptionSet.contains_insertAll, OptionSet.contains_insertAll, Bool.or_comm]
  exact congrArg _ (Bool.or_false _).symm

end Directives

/-- The terms of two queries one behind the other say the second query behind the first. -/
theorem Lexeme.Spell.join {maxDepth : Nat} {xs ys : List Lexeme} {q₁ q₂ : Query} {symbol : String}
    (h₁ : Lexeme.Spell maxDepth xs q₁) (h₂ : Lexeme.Spell maxDepth ys q₂)
    (hsymbol : symbol = "&" ∨ symbol = "|") :
    ∃ link, (∀ x ∈ (Lexeme.withoutDirectives 0 (resymbol symbol ys)).head?,
        Connective.ofSymbol? x.logic = some link) ∧
      Spell maxDepth (xs ++ resymbol symbol ys) {
        (Lexeme.directives 0 ys).foldl Directives.apply q₁.toDirectives with
        filter := if q₁.filter = [] then q₂.filter else q₁.filter ++ q₂.filter.relink link } := by
  have hterms := areTerms_resymbol hsymbol h₂.terms
  have hbuild := (Stack.build_resymbol symbol ys).trans h₂.filter
  obtain ⟨link, hlink, hjoined⟩ := Stack.build_join h₁.filter hbuild hterms
  refine ⟨link, hlink, h₁.terms.append hterms,
    h₁.nested.append (wellNested_resymbol symbol h₂.nested), hjoined, ?_⟩
  rw [directives_append h₁.nested, List.foldl_append, ← h₁.directives]
  exact Directives.foldl_apply_congr (directives_resymbol 0 symbol ys).symm

namespace Query

/-- A text that does not begin with a symbol has a first term, and this one has no symbol. -/
theorem start_of_textOf {s : String} {xs : List Lexeme} (htext : s.toList = Lexeme.textOf xs)
    (hterms : Lexeme.AreTerms true xs) (hne : s ≠ "")
    (hstart : ∀ c ∈ s.toList.head?, c ≠ '&' ∧ c ≠ '|') :
    (∀ x ∈ xs.head?, x.logic = "") ∧ xs ≠ [] := by
  cases xs with
  | nil => exact absurd (String.toList_inj.mp htext) hne
  | cons x xs =>
    refine ⟨fun y hy => ?_, List.cons_ne_nil x xs⟩
    cases hy
    rw [htext, Lexeme.textOf, Lexeme.text_append] at hstart
    rcases hterms.1.logic with hl | hl | ⟨-, hl⟩
    · rw [hl] at hstart
      exact absurd rfl (hstart '&' rfl).1
    · rw [hl] at hstart
      exact absurd rfl (hstart '|' rfl).2
    · exact hl

/-- Two texts that are joined by a symbol say the filters, the orders and the options of both. The
first term of the second filter is joined as the symbol before it says, and a limit or an offset of
the second text takes the place of one of the first. -/
theorem parse_join (s₁ s₂ j : String) (maxDepth : Nat) (q₁ q₂ : Query)
    (h₁ : parse s₁ maxDepth = .ok q₁) (h₂ : parse s₂ maxDepth = .ok q₂) (hne : s₂ ≠ "")
    (hstart : ∀ c ∈ s₂.toList.head?, c ≠ '&' ∧ c ≠ '|') (hj : j = "&" ∨ j = "|") :
    ∃ q, parse (s₁ ++ j ++ s₂) maxDepth = .ok q ∧
      (q₁.filter = [] → q.filter = q₂.filter) ∧
      (q₂.filter = [] → q.filter = q₁.filter) ∧
      (q₁.filter ≠ [] → q₂.filter ≠ [] → ∃ x y link,
        (tested (s₁ ++ j ++ s₂))[(tested s₁).length]? = some x ∧
        (tested s₂).head? = some y ∧ x = { y with logic := x.logic } ∧
        Connective.ofSymbol? x.logic = some link ∧
        q.filter = q₁.filter ++ q₂.filter.relink link) ∧
      q.sort = q₁.sort ++ q₂.sort ∧
      (∀ name, q.hasOption name = (q₁.hasOption name || q₂.hasOption name)) ∧
      ((∃ x ∈ directing s₂, x.field = "limit") → q.limit = q₂.limit) ∧
      ((∀ x ∈ directing s₂, x.field ≠ "limit") → q.limit = q₁.limit) ∧
      ((∃ x ∈ directing s₂, x.field = "offset") → q.offset = q₂.offset) ∧
      ((∀ x ∈ directing s₂, x.field ≠ "offset") → q.offset = q₁.offset) := by
  obtain ⟨htext₁, hspell₁⟩ := spell_of_parse h₁
  obtain ⟨htext₂, hspell₂⟩ := spell_of_parse h₂
  obtain ⟨hlogic, hterms⟩ := start_of_textOf htext₂ hspell₂.terms hne hstart
  obtain ⟨link, hlink, hspell⟩ := hspell₁.join hspell₂ hj
  have htext : (s₁ ++ j ++ s₂).toList =
      Lexeme.textOf (terms s₁ ++ Lexeme.resymbol j (terms s₂)) := by
    rw [Lexeme.textOf_append, Lexeme.textOf_resymbol j hlogic hterms, ← htext₁, ← htext₂]
    simp
  have htested : tested (s₁ ++ j ++ s₂) =
      tested s₁ ++ Lexeme.withoutDirectives 0 (Lexeme.resymbol j (terms s₂)) := by
    have hjoined := terms_of_textOf htext hspell.terms
    exact (congrArg (Lexeme.withoutDirectives 0) hjoined).trans
      (Lexeme.withoutDirectives_append hspell₁.nested)
  have hall₂ := hspell₂.directives
  have hall := Directives.foldl_apply q₁.toDirectives (directing s₂)
  rw [Directives.foldl_apply] at hall₂
  refine ⟨_, parse_of_spell htext hspell, fun hnone => if_pos hnone, fun hnone => ?_,
    fun hsome₁ hsome₂ => ?_, ?_, ?_, fun hsome => ?_, fun hnone => ?_, fun hsome => ?_,
    fun hnone => ?_⟩
  · dsimp only
    rw [hnone]
    split
    · rename_i hfirst
      exact hfirst.symm
    · exact List.append_nil _
  · cases hrest : Lexeme.withoutDirectives 0 (Lexeme.resymbol j (terms s₂)) with
    | nil =>
      have hbuild := (Stack.build_resymbol j (terms s₂)).trans hspell₂.filter
      exact absurd (Stack.eq_nil_of_build
        (Lexeme.wellNested_resymbol j hspell₂.nested) hrest hbuild) hsome₂
    | cons x rest =>
      have hhead : (Lexeme.withoutDirectives 0 (Lexeme.resymbol j (terms s₂))).head? = some x := by
        rw [hrest]
        rfl
      obtain ⟨y, hy, hxy⟩ := Lexeme.head_withoutDirectives_resymbol hhead
      refine ⟨x, y, link, ?_, hy, hxy, hlink x hhead, if_neg hsome₁⟩
      rw [htested, hrest, List.getElem?_append_right (Nat.le_refl _), Nat.sub_self]
      rfl
  · rw [show q₂.sort = _ from congrArg Directives.sort hspell₂.directives]
    exact Directives.sort_foldl_apply
  · intro name
    rw [hasOption, hasOption, hasOption,
      show q₂.options = _ from congrArg Directives.options hspell₂.directives]
    exact Directives.contains_foldl_apply name
  · exact (congrArg Directives.limit hall).trans ((Lexeme.getD_lastCount?_of_exists
      (hspell₂.denotesCount (.inl rfl)) hsome _ _).trans (congrArg Directives.limit hall₂).symm)
  · exact (congrArg Directives.limit hall).trans (Lexeme.getD_lastCount?_of_forall_ne hnone _)
  · exact (congrArg Directives.offset hall).trans ((Lexeme.getD_lastCount?_of_exists
      (hspell₂.denotesCount (.inr rfl)) hsome _ _).trans (congrArg Directives.offset hall₂).symm)
  · exact (congrArg Directives.offset hall).trans (Lexeme.getD_lastCount?_of_forall_ne hnone _)

/-- Where a directive stands at the join, the first term behind it is joined by its own symbol. -/
theorem parse_join_directive :
    ∃ q₁ q₂ q, parse "a=1&limit=3" 32 = .ok q₁ ∧ parse "sort=b&(c=2|d=3)&offset=4" 32 = .ok q₂ ∧
      parse ("a=1&limit=3" ++ "|" ++ "sort=b&(c=2|d=3)&offset=4") 32 = .ok q ∧
      q.filter = q₁.filter ++ q₂.filter.relink .and ∧ q.sort = [⟨"b", false⟩] ∧
      q.limit = 3 ∧ q.offset = 4 := by
  have h₁ : parse "a=1&limit=3" 32 =
      .ok { limit := 3, filter := [.predicate .start ⟨.equal, "a", "1"⟩] } :=
    eq_ok_of_toOption (by decide +kernel)
  have h₂ : parse "sort=b&(c=2|d=3)&offset=4" 32 = .ok {
      sort := [⟨"b", false⟩]
      offset := 4
      filter := [.group .start [.predicate .start ⟨.equal, "c", "2"⟩,
        .predicate .or ⟨.equal, "d", "3"⟩]] } :=
    eq_ok_of_toOption (by decide +kernel)
  obtain ⟨q, hq, -, -, hfilter, hsort, -, -, hlimit, hoffset, -⟩ :=
    parse_join _ _ "|" 32 _ _ h₁ h₂ (by decide) (by simp) (.inr rfl)
  obtain ⟨x, y, link, hx, -, -, hlink, hf⟩ := hfilter (by simp) (by simp)
  have hfirst : (tested ("a=1&limit=3" ++ "|" ++ "sort=b&(c=2|d=3)&offset=4"))[
      (tested "a=1&limit=3").length]? = some ⟨"&", 1, "c", "=", "2", 0⟩ := by
    decide +kernel
  obtain rfl := Option.some.inj (hfirst.symm.trans hx)
  obtain rfl : Connective.and = link := Option.some.inj hlink
  exact ⟨_, _, q, h₁, h₂, hq, hf, hsort, hlimit (by decide +kernel), hoffset (by decide +kernel)⟩

end Query
end UrlFilter
