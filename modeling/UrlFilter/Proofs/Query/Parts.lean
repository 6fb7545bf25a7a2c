import UrlFilter.Proofs.Query.Deletion

/-! Texts by their parts. A term is cut into its joining symbol, its opening parentheses one by one,
its comparison and its closing parentheses one by one, so that a group of a text is a stretch of
parts, wherever among the terms its parentheses stand. A `Reader` goes over the parts; by
`spell_iff_readAll?` it finds what the terms say. -/
namespace UrlFilter

/-- The smallest parts of terms. -/
inductive Lexeme.Part where
  /-- The joining symbol of a term, or nothing where a term has none. -/
  | symbol (logic : String)
  /-- A `(` before a field. -/
  | opening
  | test (field op value : String)
  /-- A `)` behind a value. -/
  | closing
  deriving DecidableEq, Repr

namespace Lexeme.Part

/-- The characters of a part. -/
def text : Part → List Char
  | symbol logic => logic.toList
  | opening => ['(']
  | test field op value => field.toList ++ (op.toList ++ value.toList)
  | closing => [')']

/-- The text of parts written one after another. -/
def textOf (ps : List Part) : List Char :=
  ps.flatMap text

/-- Whether the parts close all that is open behind them: the groups that they open, and `depth`
groups that are open before them. -/
def isBalanced : Nat → List Part → Bool
  | depth, [] => depth == 0
  | depth, symbol _ :: ps => isBalanced depth ps
  | depth, opening :: ps => isBalanced (depth + 1) ps
  | depth, test _ _ _ :: ps => isBalanced depth ps
  | 0, closing :: _ => false
  | depth + 1, closing :: ps => isBalanced depth ps

@[simp] theorem textOf_nil : textOf [] = [] := rfl

@[simp] theorem textOf_cons (p : Part) (ps : List Part) : textOf (p :: ps) = p.text ++ textOf ps :=
  rfl

@[simp] theorem textOf_append (ps qs : List Part) : textOf (ps ++ qs) = textOf ps ++ textOf qs :=
  List.flatMap_append

theorem textOf_replicate {p : Part} {c : Char} (h : p.text = [c]) (count : Nat) :
    textOf (List.replicate count p) = List.replicate count c := by
  induction count with
  | zero => rfl
  | succ count ih => rw [List.replicate_succ, textOf_cons, h, ih, List.replicate_succ]; rfl

@[simp] theorem textOf_openings (count : Nat) :
    textOf (List.replicate count opening) = List.replicate count '(' :=
  textOf_replicate rfl count

@[simp] theorem textOf_closings (count : Nat) :
    textOf (List.replicate count closing) = List.replicate count ')' :=
  textOf_replicate rfl count

end Lexeme.Part

namespace Lexeme

/-- The parts of a term. -/
def parts (x : Lexeme) : List Part :=
  .symbol x.logic :: (List.replicate x.opens .opening ++
    .test x.field x.op x.value :: List.replicate x.closes .closing)

/-- The parts of terms one after another. -/
def partsOf (xs : List Lexeme) : List Part :=
  xs.flatMap parts

@[simp] theorem partsOf_cons (x : Lexeme) (xs : List Lexeme) :
    partsOf (x :: xs) = x.parts ++ partsOf xs := rfl

theorem textOf_parts (x : Lexeme) : Part.textOf x.parts = x.text := by
  simp [parts, text, Part.text]

theorem textOf_partsOf (xs : List Lexeme) : Part.textOf (partsOf xs) = textOf xs := by
  induction xs with
  | nil => rfl
  | cons x xs ih => rw [partsOf_cons, Part.textOf_append, textOf_parts, ih, textOf]

end Lexeme

/-! ## Reading parts -/

open Lexeme (Part)

/-- What is read so far: the open lists, the joining symbol of the term that is being read, and the
directives. -/
structure Reader where
  stack : Stack := {}
  symbol : String := ""
  directives : Directives := {}

namespace Reader

/-- Reads what a term says between its parentheses. -/
def add? (x : Lexeme) (r : Reader) : Option Reader :=
  if r.stack.height = 0 ∧ x.NeedsCount ∧ Text.count? x.value = none then none
  else
    (Stack.add? x r.stack).map fun stack =>
      { r with
        stack
        directives :=
          if r.stack.height = 0 ∧ x.IsDirective then r.directives.apply x else r.directives }

/-- Reads one part. -/
def read? (maxDepth : Nat) (r : Reader) : Part → Option Reader
  | .symbol logic => some { r with symbol := logic }
  | .opening =>
    if r.stack.height < maxDepth then
      (Stack.push? r.symbol r.stack).map fun stack => { r with stack }
    else none
  | .test field op value => r.add? ⟨r.symbol, 0, field, op, value, 0⟩
  | .closing => (Stack.pop? r.stack).map fun stack => { r with stack }

/-- Reads parts from left to right. -/
def readAll? (maxDepth : Nat) : List Part → Reader → Option Reader
  | [], r => some r
  | p :: ps, r => (r.read? maxDepth p).bind (readAll? maxDepth ps)

variable {maxDepth : Nat} {r r' : Reader} {x : Lexeme} {xs : List Lexeme}

theorem read?_opening_eq_some_iff :
    r.read? maxDepth .opening = some r' ↔
      r.stack.height < maxDepth ∧ ∃ link, Stack.joining? r.stack.top r.symbol = some link ∧
        r' = { r with stack := ⟨[], (r.stack.top, link) :: r.stack.below⟩ } := by
  rw [read?]
  split
  · rename_i hlt
    simp [hlt, Stack.push?, eq_comm]
  · rename_i hlt
    exact iff_of_false nofun fun h => hlt h.1

theorem readAll?_append (ps qs : List Part) :
    readAll? maxDepth (ps ++ qs) r = (readAll? maxDepth ps r).bind (readAll? maxDepth qs) := by
  induction ps generalizing r with
  | nil => rfl
  | cons p ps ih =>
    rw [List.cons_append, readAll?, readAll?, Option.bind_assoc]
    exact congrArg _ (funext fun _ => ih)

theorem readAll?_openings (hle : r.stack.height ≤ maxDepth) (count : Nat) :
    readAll? maxDepth (List.replicate count .opening) r =
      if r.stack.height + count ≤ maxDepth then
        (Stack.times? (Stack.push? r.symbol) count r.stack).map fun stack => { r with stack }
      else none := by
  induction count generalizing r with
  | zero => exact (if_pos hle).symm
  | succ count ih =>
    rw [List.replicate_succ, readAll?, read?, Stack.times?]
    by_cases hlt : r.stack.height < maxDepth
    · rw [if_pos hlt]
      cases hpush : Stack.push? r.symbol r.stack with
      | none => exact (ite_self none).symm
      | some s =>
        have hheight := (Stack.predicates_push hpush).2
        have hrest := @ih ⟨s, r.symbol, r.directives⟩ (by dsimp only; omega)
        rw [Option.map_some, Option.bind_some, Option.bind_some, hrest]
        dsimp only
        rw [hheight, Nat.add_assoc, Nat.add_comm 1]
    · rw [if_neg hlt, if_neg (by omega)]
      rfl

theorem readAll?_closings (count : Nat) :
    readAll? maxDepth (List.replicate count .closing) r =
      (Stack.times? Stack.pop? count r.stack).map fun stack => { r with stack } := by
  induction count generalizing r with
  | zero => rfl
  | succ count ih =>
    rw [List.replicate_succ, readAll?, read?, Stack.times?]
    cases Stack.pop? r.stack with
    | none => rfl
    | some s => exact ih

/-- The reader behind a term that leaves the open lists `stack`. -/
def after (r : Reader) (x : Lexeme) (stack : Stack) : Reader where
  stack
  symbol := x.logic
  directives :=
    if r.stack.height + x.opens = 0 ∧ x.IsDirective then r.directives.apply x else r.directives

/-- The parts of a term do what the term does. -/
theorem readAll?_parts (hle : r.stack.height ≤ maxDepth) :
    readAll? maxDepth x.parts r =
      if r.stack.height + x.opens ≤ maxDepth ∧
          ¬ (r.stack.height + x.opens = 0 ∧ x.NeedsCount ∧ Text.count? x.value = none) then
        (Stack.step? x r.stack).map (r.after x)
      else none := by
  have hopenings := @readAll?_openings maxDepth ⟨r.stack, x.logic, r.directives⟩ hle x.opens
  rw [Lexeme.parts, readAll?, read?, Option.bind_some, readAll?_append, hopenings, Stack.step?]
  dsimp only
  by_cases hdeep : r.stack.height + x.opens ≤ maxDepth
  · rw [if_pos hdeep]
    cases hopen : Stack.times? (Stack.push? x.logic) x.opens r.stack with
    | none => exact (ite_self none).symm
    | some s =>
      have hheight := (Stack.predicates_times_push hopen).2
      show (add? x ⟨s, x.logic, r.directives⟩).bind _ = _
      rw [Option.bind_some, add?]
      dsimp only
      rw [← hheight]
      by_cases hcount : s.height = 0 ∧ x.NeedsCount ∧ Text.count? x.value = none
      · rw [if_pos hcount, if_neg fun h => h.2 hcount]
        rfl
      · have hok : s.height ≤ maxDepth ∧
            ¬ (s.height = 0 ∧ x.NeedsCount ∧ Text.count? x.value = none) := ⟨by omega, hcount⟩
        rw [if_neg hcount, if_pos hok, Option.bind_map, Option.map_bind]
        refine congrArg _ (funext fun t => ?_)
        rw [Function.comp_apply, readAll?_closings, Function.comp_apply]
        refine congrArg (Option.map · _) (funext fun u => ?_)
        rw [after, hheight]
  · rw [if_neg hdeep, if_neg fun h => hdeep h.1]
    rfl

theorem readAll?_partsOf {t : Stack} {d : Directives} (hle : r.stack.height ≤ maxDepth) :
    ((∃ symbol, readAll? maxDepth (Lexeme.partsOf xs) r = some ⟨t, symbol, d⟩) ∧ t.height = 0) ↔
      WellNested maxDepth r.stack.height xs ∧ Stack.build? xs r.stack = some t ∧
        d = (Lexeme.directives r.stack.height xs).foldl Directives.apply r.directives := by
  induction xs generalizing r with
  | nil =>
    constructor
    · rintro ⟨⟨symbol, ⟨⟩⟩, hheight⟩
      exact ⟨hheight, rfl, rfl⟩
    · rintro ⟨hheight, ⟨⟩, rfl⟩
      exact ⟨⟨r.symbol, rfl⟩, hheight⟩
  | cons x xs ih =>
    have hcount :
        ¬ (r.stack.height + x.opens = 0 ∧ x.NeedsCount ∧ Text.count? x.value = none) ↔
          (r.stack.height + x.opens = 0 → x.NeedsCount → DenotesCount x.value) := by
      rw [count?_eq_none_iff, not_and, not_and, not_not]
    rw [Lexeme.partsOf_cons, readAll?_append, readAll?_parts hle, WellNested, Stack.build?]
    split
    · rename_i hok
      cases hstep : Stack.step? x r.stack with
      | none => simp
      | some u =>
        have hheight := Stack.height_add_closes_of_step hstep
        have hu : r.stack.height + x.opens - x.closes = u.height := by omega
        have hdirectives :
            (Lexeme.directives r.stack.height (x :: xs)).foldl Directives.apply r.directives =
              (Lexeme.directives u.height xs).foldl Directives.apply (r.after x u).directives := by
          rw [Lexeme.directives, hu, after]
          split
          · rfl
          · rfl
        have hrest := @ih (r.after x u) (show u.height ≤ maxDepth by omega)
        rw [Option.map_some, Option.bind_some, Option.bind_some, hrest, hdirectives, hu]
        constructor
        · rintro ⟨hnested, h⟩
          exact ⟨⟨hok.1, by omega, hcount.mp hok.2, hnested⟩, h⟩
        · rintro ⟨⟨-, -, -, hnested⟩, h⟩
          exact ⟨hnested, h⟩
    · rename_i hno
      refine iff_of_false ?_ ?_
      · rintro ⟨⟨symbol, h⟩, -⟩
        cases h
      · rintro ⟨⟨hdeep, -, hvalue, -⟩, -⟩
        exact hno ⟨hdeep, hcount.mpr hvalue⟩

end Reader

/-- Terms say a query exactly if a reader of their parts finds it. -/
theorem Lexeme.spell_iff_readAll? {maxDepth : Nat} {xs : List Lexeme} {q : Query} :
    Lexeme.Spell maxDepth xs q ↔
      AreTerms true xs ∧
        ∃ symbol, Reader.readAll? maxDepth (partsOf xs) {} =
          some ⟨⟨q.filter, []⟩, symbol, q.toDirectives⟩ := by
  have hread := @Reader.readAll?_partsOf maxDepth {} xs ⟨q.filter, []⟩ q.toDirectives
    (Nat.zero_le maxDepth)
  constructor
  · rintro ⟨hterms, hnested, hfilter, hdirectives⟩
    exact ⟨hterms, (hread.mpr ⟨hnested, hfilter, hdirectives⟩).1⟩
  · rintro ⟨hterms, h⟩
    obtain ⟨hnested, hfilter, hdirectives⟩ := hread.mp ⟨h, rfl⟩
    exact ⟨hterms, hnested, hfilter, hdirectives⟩

end UrlFilter
