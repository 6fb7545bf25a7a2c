import UrlFilter.Proofs.Query.Parts

/-! Redundant parentheses. More pairs of parentheses around a group of a text do not change what it
says, if only the limit has room for them: `parse_redundant`. What stands in the group is read
deeper than before and in the same way, for it is never outside all groups (`readAll?_inside`), and
where the pairs close, each of them is a group with nothing in it but a group, which collapses.

Which parentheses of a text are a group is what `Query.Encloses` says. That every opening
parenthesis of a text that can be parsed is the first one of a group is a result in its own right,
`Query.exists_encloses`, so that pairs may be added at each of them. -/
namespace UrlFilter

open Lexeme (Part)

/-! ## The open lists -/

namespace Stack

/-- A group that is opened at the start of a group needs no joining symbol. -/
theorem push_at_start (symbol : String) (below : List (Filter × Connective)) (count : Nat) :
    times? (push? symbol) count ⟨[], below⟩ =
      some ⟨[], List.replicate count ([], .start) ++ below⟩ := by
  induction count generalizing below with
  | zero => rfl
  | succ count ih =>
    show times? (push? symbol) count ⟨[], ([], .start) :: below⟩ = _
    rw [ih, List.replicate_succ', List.append_assoc, List.singleton_append]

/-- Groups that hold nothing but each other close as the innermost of them does. -/
theorem pop_nested (terms before : Filter) (link : Connective)
    (below : List (Filter × Connective)) (count : Nat) :
    times? pop? (count + 1)
        ⟨terms, List.replicate count ([], .start) ++ (before, link) :: below⟩ =
      pop? ⟨terms, (before, link) :: below⟩ := by
  induction count generalizing terms with
  | zero => rfl
  | succ count ih =>
    -- a list that holds only a group collapses to the list of this group
    exact ih [Term.group .start terms.collapse]

end Stack

namespace Reader

variable {m m' n : Nat} {ps bs ss : List Part} {r r' : Reader} {symbol : String}
  {d : Directives} {top : Filter} {x : Lexeme}
  {base base' below below' inner : List (Filter × Connective)}

theorem readAll?_of_le (h : readAll? m ps r = some r') (hle : m ≤ m') :
    readAll? m' ps r = some r' := by
  induction ps generalizing r with
  | nil => exact h
  | cons p ps ih =>
    obtain ⟨r₁, hread, h⟩ := Option.bind_eq_some_iff.mp h
    have hread' : r.read? m' p = some r₁ := by
      cases p with
      | opening =>
        obtain ⟨hlt, hpush⟩ := read?_opening_eq_some_iff.mp hread
        exact read?_opening_eq_some_iff.mpr ⟨Nat.lt_of_lt_of_le hlt hle, hpush⟩
      | _ => exact hread
    rw [readAll?, hread']
    exact ih h

theorem height_of_add (h : add? x r = some r') : r'.stack.height = r.stack.height := by
  rw [add?] at h
  split at h
  · cases h
  · obtain ⟨s, hs, rfl⟩ := Option.map_eq_some_iff.mp h
    exact (Stack.predicates_add hs).1

/-- Inside a group what a term says goes to the list of the group, and what is open around it is
not looked at. -/
theorem add?_inside (hbelow : below ≠ []) (hbelow' : below' ≠ [])
    (h : add? x ⟨⟨top, below⟩, symbol, d⟩ = some r) :
    ∃ terms, r = ⟨⟨terms, below⟩, symbol, d⟩ ∧
      add? x ⟨⟨top, below'⟩, symbol, d⟩ = some ⟨⟨terms, below'⟩, symbol, d⟩ := by
  have hheight : ¬ (⟨top, below⟩ : Stack).height = 0 := fun h0 =>
    hbelow (List.length_eq_zero_iff.mp h0)
  have hheight' : ¬ (⟨top, below'⟩ : Stack).height = 0 := fun h0 =>
    hbelow' (List.length_eq_zero_iff.mp h0)
  rw [add?, if_neg fun h0 => hheight h0.1, Stack.add?, if_neg fun h0 => hheight h0.1,
    if_neg fun h0 => hheight h0.1] at h
  rw [add?, if_neg fun h0 => hheight' h0.1, Stack.add?, if_neg fun h0 => hheight' h0.1,
    if_neg fun h0 => hheight' h0.1]
  obtain ⟨s, hs, rfl⟩ := Option.map_eq_some_iff.mp h
  obtain ⟨link, hlink, hs⟩ := Option.bind_eq_some_iff.mp hs
  obtain ⟨test, htest, rfl⟩ := Option.map_eq_some_iff.mp hs
  refine ⟨top ++ [Term.predicate link test], rfl, ?_⟩
  dsimp only at hlink ⊢
  rw [hlink, htest]
  rfl

/-- Parts that close what they open and the groups `inner`, and no group around these, are read in
the same way whatever these are, if there are any. -/
theorem readAll?_inside (hbase : base ≠ []) (hbase' : base' ≠ [])
    (hle : m + base'.length ≤ m' + base.length)
    (hbalanced : Part.isBalanced inner.length bs = true)
    (h : readAll? m bs ⟨⟨top, inner ++ base⟩, symbol, d⟩ = some r) :
    r.stack.below = base ∧
      readAll? m' bs ⟨⟨top, inner ++ base'⟩, symbol, d⟩ =
        some { r with stack := ⟨r.stack.top, base'⟩ } := by
  induction bs generalizing inner top symbol d with
  | nil =>
    obtain rfl : inner = [] := List.length_eq_zero_iff.mp (beq_iff_eq.mp hbalanced)
    cases h
    exact ⟨rfl, rfl⟩
  | cons p bs ih =>
    obtain ⟨r₁, hread, h⟩ := Option.bind_eq_some_iff.mp h
    rw [readAll?]
    cases p with
    | symbol logic =>
      cases hread
      exact ih hbalanced h
    | opening =>
      obtain ⟨hlt, link, hlink, rfl⟩ := read?_opening_eq_some_iff.mp hread
      have hlt' : (⟨top, inner ++ base'⟩ : Stack).height < m' := by
        simp only [Stack.height, List.length_append] at hlt ⊢
        omega
      have hread' : read? m' ⟨⟨top, inner ++ base'⟩, symbol, d⟩ .opening = _ :=
        read?_opening_eq_some_iff.mpr ⟨hlt', link, hlink, rfl⟩
      rw [hread']
      exact @ih symbol d [] ((top, link) :: inner) hbalanced h
    | test field op value =>
      have hne : inner ++ base ≠ [] := List.append_ne_nil_of_right_ne_nil inner hbase
      have hne' : inner ++ base' ≠ [] := List.append_ne_nil_of_right_ne_nil inner hbase'
      obtain ⟨terms, rfl, hread'⟩ := add?_inside hne hne' hread
      rw [read?, hread']
      exact ih hbalanced h
    | closing =>
      cases inner with
      | nil => cases hbalanced
      | cons frame inner =>
        cases hread
        exact ih hbalanced h

/-- Where fewer groups are open in the end than are open before a group and the `depth` groups in
it, the group is closed. -/
theorem exists_closing {depth : Nat} (h : readAll? m ps r = some r')
    (hheight : r'.stack.height + depth < r.stack.height) :
    ∃ bs ss, ps = bs ++ .closing :: ss ∧ Part.isBalanced depth bs = true := by
  induction ps generalizing r depth with
  | nil =>
    cases h
    omega
  | cons p ps ih =>
    obtain ⟨r₁, hread, hps⟩ := Option.bind_eq_some_iff.mp h
    cases p with
    | symbol logic =>
      cases hread
      obtain ⟨bs, ss, rfl, hbalanced⟩ := @ih _ depth hps hheight
      exact ⟨.symbol logic :: bs, ss, rfl, hbalanced⟩
    | opening =>
      obtain ⟨-, link, -, rfl⟩ := read?_opening_eq_some_iff.mp hread
      obtain ⟨bs, ss, rfl, hbalanced⟩ := @ih _ (depth + 1) hps (Nat.succ_lt_succ hheight)
      exact ⟨.opening :: bs, ss, rfl, hbalanced⟩
    | test field op value =>
      have hr₁ : r₁.stack.height = r.stack.height := height_of_add hread
      obtain ⟨bs, ss, rfl, hbalanced⟩ := @ih _ depth hps (by rwa [hr₁])
      exact ⟨.test field op value :: bs, ss, rfl, hbalanced⟩
    | closing =>
      cases depth with
      | zero => exact ⟨[], ps, rfl, rfl⟩
      | succ depth =>
        obtain ⟨s, hpop, rfl⟩ := Option.map_eq_some_iff.mp hread
        have hs := (Stack.predicates_pop hpop).2
        obtain ⟨bs, ss, rfl, hbalanced⟩ := @ih _ depth hps (by dsimp only; omega)
        exact ⟨.closing :: bs, ss, rfl, hbalanced⟩

/-- More pairs of parentheses around a group do not change what is read. -/
theorem readAll?_redundant (hle : m + n ≤ m') (hbalanced : Part.isBalanced 0 bs = true)
    (h : readAll? m (ps ++ .opening :: (bs ++ .closing :: ss)) r = some r') :
    readAll? m' (ps ++ (List.replicate (n + 1) .opening ++
      (bs ++ (List.replicate (n + 1) .closing ++ ss)))) r = some r' := by
  have hle' : m ≤ m' := Nat.le_of_add_right_le hle
  rw [readAll?_append] at h ⊢
  obtain ⟨⟨⟨top, below⟩, symbol, d⟩, hps, h⟩ := Option.bind_eq_some_iff.mp h
  rw [readAll?_of_le hps hle', Option.bind_some, readAll?_append]
  -- the first pair opens a group, and the others open groups at its start
  obtain ⟨r₂, hread, h⟩ := Option.bind_eq_some_iff.mp h
  obtain ⟨hlt, link, hlink, rfl⟩ := read?_opening_eq_some_iff.mp hread
  dsimp only at hlt hlink h
  have hpush : Stack.push? symbol ⟨top, below⟩ = some ⟨[], (top, link) :: below⟩ := by
    rw [Stack.push?, hlink]
    rfl
  have hopenings := @readAll?_openings m' ⟨⟨top, below⟩, symbol, d⟩ (by dsimp only; omega) (n + 1)
  dsimp only at hopenings
  rw [if_pos (by omega), Stack.times?, hpush, Option.bind_some, Stack.push_at_start] at hopenings
  rw [hopenings, Option.map_some, Option.bind_some, readAll?_append]
  -- what stands in the group is read `n` levels deeper
  rw [readAll?_append] at h
  obtain ⟨⟨⟨terms, _⟩, symbol', d'⟩, hbs, h⟩ := Option.bind_eq_some_iff.mp h
  have hinside := @readAll?_inside m m' bs _ symbol d [] ((top, link) :: below)
    (List.replicate n ([], .start) ++ (top, link) :: below) [] (by simp) (by simp)
    (by simp; omega) hbalanced hbs
  obtain ⟨rfl, hbs'⟩ := hinside
  rw [List.nil_append] at hbs'
  rw [hbs', Option.bind_some, readAll?_append, readAll?_closings, Stack.pop_nested]
  exact readAll?_of_le h hle'

end Reader

/-! ## Repeated parentheses -/

/-- Where all parts `p` stand together, one of them is repeated by writing more of them. -/
theorem Lexeme.Part.repeat_among {p : Part} (before : List Part) {after qs rs : List Part}
    (hbefore : p ∉ before) (hafter : p ∉ after) {count : Nat} (n : Nat)
    (h : before ++ (List.replicate count p ++ after) = qs ++ p :: rs) :
    before ++ (List.replicate (count + n) p ++ after) =
      qs ++ (List.replicate (n + 1) p ++ rs) := by
  induction before generalizing qs with
  | cons b before ih =>
    cases qs with
    | nil => exact absurd (List.cons.inj h).1.symm (List.ne_of_not_mem_cons hbefore)
    | cons c qs =>
      obtain ⟨rfl, hrest⟩ := List.cons.inj h
      exact congrArg (b :: ·) (ih (List.not_mem_of_not_mem_cons hbefore) hrest)
  | nil =>
    simp only [List.nil_append] at h ⊢
    induction count generalizing qs with
    | zero =>
      refine absurd ?_ hafter
      rw [show after = qs ++ p :: rs from h]
      exact List.mem_append_right qs (List.mem_cons_self ..)
    | succ count ih =>
      rw [List.replicate_succ, List.cons_append] at h
      cases qs with
      | nil =>
        obtain ⟨-, rfl⟩ := List.cons.inj h
        rw [List.nil_append, ← List.append_assoc, List.replicate_append_replicate]
        congr 2
        omega
      | cons c qs =>
        obtain ⟨rfl, hrest⟩ := List.cons.inj h
        rw [Nat.add_right_comm]
        exact congrArg (p :: ·) (ih hrest)

namespace Lexeme

variable {m m' n : Nat} {xs : List Lexeme} {x : Lexeme} {p : Part} {ps bs ss : List Part}

theorem exists_parts_repeat (hp : p = .opening ∨ p = .closing) (n : Nat)
    (h : x.parts = ps ++ p :: ss) :
    ∃ y : Lexeme, y.parts = ps ++ (List.replicate (n + 1) p ++ ss) ∧ y.bare = x.bare := by
  rcases hp with rfl | rfl
  · refine ⟨{ x with opens := x.opens + n }, ?_, rfl⟩
    exact Part.repeat_among [.symbol x.logic] (by simp) (by simp) n h
  · refine ⟨{ x with closes := x.closes + n }, ?_, rfl⟩
    have hparts (z : Lexeme) : z.parts =
        (.symbol z.logic :: List.replicate z.opens .opening ++ [.test z.field z.op z.value]) ++
          (List.replicate z.closes .closing ++ []) := by
      simp [parts]
    rw [hparts] at h ⊢
    exact Part.repeat_among _ (by simp) (by simp) n h

theorem exists_partsOf_repeat (hp : p = .opening ∨ p = .closing) (n : Nat)
    (h : partsOf xs = ps ++ p :: ss) :
    ∃ ys, partsOf ys = ps ++ (List.replicate (n + 1) p ++ ss) ∧ ys.map bare = xs.map bare := by
  induction xs generalizing ps with
  | nil => exact absurd h.symm (List.append_ne_nil_of_right_ne_nil ps (List.cons_ne_nil p ss))
  | cons x xs ih =>
    have hfurther (ps' : List Part) (h : partsOf xs = ps' ++ p :: ss) :
        ∃ ys, partsOf ys = x.parts ++ (ps' ++ (List.replicate (n + 1) p ++ ss)) ∧
          ys.map bare = (x :: xs).map bare := by
      obtain ⟨ys, hys, hbare⟩ := ih h
      exact ⟨x :: ys, by rw [partsOf_cons, hys], by rw [List.map_cons, hbare, List.map_cons]⟩
    rw [partsOf_cons] at h
    rcases List.append_eq_append_iff.mp h with ⟨ps', rfl, hxs⟩ | ⟨qs, hx, hqs⟩
    · obtain ⟨ys, hys, hbare⟩ := hfurther ps' hxs
      exact ⟨ys, by rw [hys, List.append_assoc], hbare⟩
    · cases qs with
      | nil =>
        obtain rfl : x.parts = ps := by rw [hx, List.append_nil]
        exact hfurther [] hqs.symm
      | cons q qs =>
        rw [List.cons_append] at hqs
        obtain ⟨rfl, rfl⟩ := List.cons.inj hqs
        obtain ⟨y, hy, hbare⟩ := exists_parts_repeat hp n hx
        refine ⟨y :: xs, ?_, by rw [List.map_cons, hbare, List.map_cons]⟩
        rw [partsOf_cons, hy, List.append_assoc, List.append_assoc]

/-- Terms with more pairs of parentheses around a group say what they say without them. -/
theorem Spell.redundant {q : Query} (h : Spell m xs q) (hle : m + n ≤ m')
    (hparts : partsOf xs = ps ++ .opening :: (bs ++ .closing :: ss))
    (hbalanced : Part.isBalanced 0 bs = true) :
    ∃ ys, Spell m' ys q ∧
      partsOf ys = ps ++ (List.replicate (n + 1) .opening ++
        (bs ++ (List.replicate (n + 1) .closing ++ ss))) := by
  obtain ⟨hterms, symbol, hread⟩ := spell_iff_readAll?.mp h
  rw [hparts] at hread
  obtain ⟨ys, hys, hbare⟩ := exists_partsOf_repeat (.inl rfl) n hparts
  have hclosing : partsOf ys =
      (ps ++ (List.replicate (n + 1) .opening ++ bs)) ++ .closing :: ss := by
    rw [hys, List.append_assoc, List.append_assoc]
  obtain ⟨zs, hzs, hbare'⟩ := exists_partsOf_repeat (.inr rfl) n hclosing
  rw [List.append_assoc, List.append_assoc] at hzs
  refine ⟨zs, spell_iff_readAll?.mpr ⟨hterms.of_bare (hbare'.trans hbare), symbol, ?_⟩, hzs⟩
  rw [hzs]
  exact Reader.readAll?_redundant hle hbalanced hread

end Lexeme

namespace Query

/-- Whether the parentheses shown in the text `front(inside)back` are a group of it: the first is
one of the opening parentheses of a term, and the second is the closing one that closes what the
first opens. -/
def Encloses (front inside back : String) : Prop :=
  ∃ ps bs ss, Lexeme.partsOf (terms (front ++ "(" ++ inside ++ ")" ++ back)) =
      ps ++ .opening :: (bs ++ .closing :: ss) ∧
    Part.textOf ps = front.toList ∧ Part.textOf bs = inside.toList ∧
    Part.textOf ss = back.toList ∧ Part.isBalanced 0 bs = true

/-- Every opening parenthesis of a text that can be parsed opens a group that ends in the text. -/
theorem exists_encloses {s : String} {m : Nat} {q : Query} {ps rest : List Part}
    (h : parse s m = .ok q) (hparts : Lexeme.partsOf (terms s) = ps ++ .opening :: rest) :
    ∃ front inside back, s = front ++ "(" ++ inside ++ ")" ++ back ∧
      front.toList = Part.textOf ps ∧ Encloses front inside back := by
  obtain ⟨htext, hspell⟩ := spell_of_parse h
  obtain ⟨-, symbol, hread⟩ := Lexeme.spell_iff_readAll?.mp hspell
  rw [hparts, Reader.readAll?_append] at hread
  obtain ⟨r₁, -, hread⟩ := Option.bind_eq_some_iff.mp hread
  obtain ⟨r₂, hopen, hread⟩ := Option.bind_eq_some_iff.mp hread
  obtain ⟨-, link, -, rfl⟩ := Reader.read?_opening_eq_some_iff.mp hopen
  obtain ⟨bs, ss, rfl, hbalanced⟩ := @Reader.exists_closing _ _ _ _ 0 hread (Nat.succ_pos _)
  have hs : s = String.ofList (Part.textOf ps) ++ "(" ++ String.ofList (Part.textOf bs) ++ ")" ++
      String.ofList (Part.textOf ss) := by
    rw [← String.toList_inj, htext, ← Lexeme.textOf_partsOf, hparts]
    simp [Part.text]
  refine ⟨_, _, _, hs, String.toList_ofList, ps, bs, ss, ?_, String.toList_ofList.symm,
    String.toList_ofList.symm, String.toList_ofList.symm, hbalanced⟩
  rw [← hs, hparts]

/-- Redundant parentheses never change what a text says. A second pair around a group needs room for
one more level, and `n` more pairs need room for `n` more. -/
theorem parse_redundant (front inside back : String) (m : Nat) (q : Query)
    (h : parse (front ++ "(" ++ inside ++ ")" ++ back) m = .ok q)
    (hgroup : Encloses front inside back) :
    (∀ m', m < m' → parse (front ++ "((" ++ inside ++ "))" ++ back) m' = .ok q) ∧
      ∀ n m', m + n ≤ m' →
        parse (front ++ String.ofList (List.replicate (n + 1) '(') ++ inside ++
          String.ofList (List.replicate (n + 1) ')') ++ back) m' = .ok q := by
  obtain ⟨ps, bs, ss, hparts, hps, hbs, hss, hbalanced⟩ := hgroup
  have hmany : ∀ n m', m + n ≤ m' →
      parse (front ++ String.ofList (List.replicate (n + 1) '(') ++ inside ++
        String.ofList (List.replicate (n + 1) ')') ++ back) m' = .ok q := by
    intro n m' hle
    obtain ⟨ys, hspell, hys⟩ := (spell_of_parse h).2.redundant hle hparts hbalanced
    refine parse_of_spell ?_ hspell
    rw [← Lexeme.textOf_partsOf, hys]
    simp only [Part.textOf_append, Part.textOf_openings, Part.textOf_closings, hps, hbs, hss,
      String.toList_append, String.toList_ofList, List.append_assoc]
  exact ⟨fun m' hlt => hmany 1 m' hlt, hmany⟩

/-- The group goes over several terms and holds one of its own, whose value begins with a
parenthesis. -/
theorem parse_redundant_stacked :
    ∃ q, parse "a=1|(b=2|(c=(3)&d=4)&sort=e" 2 = .ok q ∧
      Encloses "a=1|" "b=2|(c=(3)&d=4" "&sort=e" ∧
      parse "a=1|((b=2|(c=(3)&d=4))&sort=e" 3 = .ok q ∧
      parse "a=1|((((b=2|(c=(3)&d=4))))&sort=e" 32 = .ok q := by
  have h : parse "a=1|(b=2|(c=(3)&d=4)&sort=e" 2 = .ok {
      sort := [⟨"e", false⟩]
      filter := [.predicate .start ⟨.equal, "a", "1"⟩,
        .group .or [.predicate .start ⟨.equal, "b", "2"⟩,
          .group .or [.predicate .start ⟨.equal, "c", "(3"⟩],
          .predicate .and ⟨.equal, "d", "4"⟩]] } :=
    eq_ok_of_toOption (by decide +kernel)
  have hgroup : Encloses "a=1|" "b=2|(c=(3)&d=4" "&sort=e" :=
    ⟨[.symbol "", .test "a" "=" "1", .symbol "|"],
      [.test "b" "=" "2", .symbol "|", .opening, .test "c" "=" "(3", .closing, .symbol "&",
        .test "d" "=" "4"],
      [.symbol "&", .test "sort" "=" "e"], by decide +kernel⟩
  obtain ⟨hdouble, hmany⟩ := parse_redundant "a=1|" "b=2|(c=(3)&d=4" "&sort=e" 2 _ h hgroup
  exact ⟨_, h, hgroup, hdouble 3 (by decide), hmany 3 32 (by decide)⟩

end Query
end UrlFilter
