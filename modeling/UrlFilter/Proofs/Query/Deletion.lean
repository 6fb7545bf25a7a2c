import Mathlib.Data.List.Induction
import Mathlib.Data.List.Sort
import UrlFilter.Proofs.Query.Spelling

/-! Directives and the rest of a text do not meet. Order, options and page come from the directives
outside all groups alone, and a text from which these are deleted still says its filter:
`directives_act_outside`. A directive opens and closes no group, so that the stack of open lists is
behind it what it was before it. -/
namespace UrlFilter

/-! ## Sets of options -/

/-- Sets that hold the same names are equal. -/
theorem OptionSet.eq_of_contains {s t : OptionSet}
    (h : ∀ name, s.contains name = t.contains name) : s = t := by
  refine eq_of_names_eq (s.ordered.eq_of_mem_iff t.ordered fun name => ?_)
  have hname := Bool.eq_iff_iff.mp (h name)
  simpa [contains] using hname

theorem OptionSet.contains_ofList (names : List String) (name : String) :
    (ofList names).contains name = names.contains name := by
  rw [ofList, contains_insertAll]
  exact Bool.or_false _

/-! ## Counts -/

/-- The number that a count stands for. -/
def Text.numberOf (value : String) : Nat :=
  Nat.ofDigitChars 10 (dropPlus value.toList) 0

theorem Text.toNat_of_count? {value : String} {n : UInt64} (h : count? value = some n) :
    n.toNat = numberOf value := by
  unfold count? at h
  split at h
  · rename_i m hm
    split at h
    · rename_i hlt
      cases h
      rw [UInt64.toNat_ofNat_of_lt' hlt]
      exact (natural?_eq_some_iff.mp hm).2.2
    · cases h
  · cases h

namespace Lexeme

variable {maxDepth depth : Nat} {name : String} {x : Lexeme} {xs ds : List Lexeme}

/-- The number of the last of the terms that have the name, zero if none has it. -/
def lastNumber (name : String) (ds : List Lexeme) : Nat :=
  match (ds.filter fun x => x.field = name).getLast? with
  | none => 0
  | some x => Text.numberOf x.value

theorem toNat_lastCount? (h : ∀ x ∈ ds, x.field = name → DenotesCount x.value) :
    ((lastCount? name ds).getD 0).toNat = lastNumber name ds := by
  unfold lastCount? lastNumber
  induction ds using List.reverseRecOn with
  | nil => rfl
  | append_singleton ds x ih =>
    have hds := ih fun y hy => h y (List.mem_append_left _ hy)
    rw [List.filterMap_append, List.filter_append]
    by_cases hname : x.field = name
    · -- the last term has the name, so those before it do not count
      obtain ⟨n, hn⟩ := Option.isSome_iff_exists.mp
        (isSome_count?_iff.mpr (h x (by simp) hname))
      simp [count?, hname, hn, Text.toNat_of_count? hn]
    · simpa [count?, hname] using hds

theorem denotesCount_of_mem_directives (h : WellNested maxDepth depth xs)
    (hx : x ∈ directives depth xs) (hcount : x.NeedsCount) : DenotesCount x.value := by
  induction xs generalizing depth with
  | nil => exact absurd hx List.not_mem_nil
  | cons y ys ih =>
    obtain ⟨-, -, hvalue, hrest⟩ := h
    rw [directives] at hx
    split at hx
    · rename_i hdirective
      rcases List.mem_cons.mp hx with rfl | hx
      · exact hvalue hdirective.1 hcount
      · exact ih hrest hx
    · exact ih hrest hx

theorem Spell.denotesCount {q : Query} (h : Spell maxDepth xs q)
    (hname : name = "limit" ∨ name = "offset") :
    ∀ x ∈ Lexeme.directives 0 xs, x.field = name → DenotesCount x.value := by
  intro x hx hfield
  refine denotesCount_of_mem_directives h.nested hx ?_
  rw [NeedsCount, hfield]
  exact hname

/-! ## Terms without their directives -/

theorem withoutDirectives_sublist (depth : Nat) (xs : List Lexeme) :
    (withoutDirectives depth xs).Sublist xs := by
  induction xs generalizing depth with
  | nil => exact .slnil
  | cons x xs ih =>
    rw [withoutDirectives]
    split
    · exact (ih _).cons x
    · exact (ih _).cons_cons x

/-- Behind a directive no more groups are open than before it, and none is. -/
theorem depth_of_directive (h : depth + x.opens = 0) : depth + x.opens - x.closes = depth := by
  omega

theorem wellNested_withoutDirectives (h : WellNested maxDepth depth xs) :
    WellNested maxDepth depth (withoutDirectives depth xs) := by
  induction xs generalizing depth with
  | nil => exact h
  | cons x xs ih =>
    have hrest := ih h.2.2.2
    rw [withoutDirectives]
    split
    · rename_i hdirective
      rw [depth_of_directive hdirective.1] at hrest ⊢
      exact hrest
    · exact ⟨h.1, h.2.1, h.2.2.1, hrest⟩

theorem directives_withoutDirectives (depth : Nat) (xs : List Lexeme) :
    directives depth (withoutDirectives depth xs) = [] := by
  induction xs generalizing depth with
  | nil => rfl
  | cons x xs ih =>
    have hrest := ih (depth + x.opens - x.closes)
    rw [withoutDirectives]
    split
    · rename_i hdirective
      rw [depth_of_directive hdirective.1] at hrest ⊢
      exact hrest
    · rename_i hdirective
      rw [directives, if_neg hdirective]
      exact hrest

end Lexeme

/-! ## The tree without the directives -/

namespace Stack

variable {s t : Stack} {x : Lexeme}

theorem height_add_closes_of_step (h : step? x s = some t) :
    t.height + x.closes = s.height + x.opens := by
  obtain ⟨s₁, h₁, h⟩ := Option.bind_eq_some_iff.mp h
  obtain ⟨s₂, h₂, h₃⟩ := Option.bind_eq_some_iff.mp h
  have hopen := (predicates_times_push h₁).2
  have hadd := (predicates_add h₂).1
  have hclose := (predicates_times_pop h₃).2
  omega

theorem height_of_step (h : step? x s = some t) : t.height = s.height + x.opens - x.closes := by
  have := height_add_closes_of_step h
  omega

/-- A directive leaves the open lists as they are. -/
theorem step_of_directive (h : s.height + x.opens = 0 ∧ x.IsDirective) (hcloses : x.closes = 0) :
    step? x s = some s := by
  have hopens : x.opens = 0 := Nat.eq_zero_of_add_eq_zero_left h.1
  have hheight : s.height = 0 := Nat.eq_zero_of_add_eq_zero_right h.1
  rw [step?, hopens, hcloses, times?, Option.bind_some, add?, if_pos ⟨hheight, h.2⟩]
  rfl

theorem build_withoutDirectives {maxDepth : Nat} {xs : List Lexeme}
    (h : WellNested maxDepth s.height xs) :
    build? (Lexeme.withoutDirectives s.height xs) s = build? xs s := by
  induction xs generalizing s with
  | nil => rfl
  | cons x xs ih =>
    obtain ⟨-, hcloses, -, hrest⟩ := h
    rw [Lexeme.withoutDirectives]
    split
    · rename_i hdirective
      rw [Lexeme.depth_of_directive hdirective.1] at hrest ⊢
      rw [ih hrest, build?, step_of_directive hdirective (by omega)]
      rfl
    · rw [build?, build?]
      cases hstep : step? x s with
      | none => rfl
      | some t =>
        rw [← height_of_step hstep] at hrest ⊢
        exact ih hrest

end Stack

/-- A directive acts by its name and its value. -/
theorem Directives.foldl_apply_congr {d : Directives} {ds ds' : List Lexeme}
    (h : ds.map (fun x => (x.field, x.value)) = ds'.map (fun x => (x.field, x.value))) :
    ds.foldl apply d = ds'.foldl apply d := by
  induction ds generalizing ds' d with
  | nil => rw [List.map_eq_nil_iff.mp h.symm]
  | cons x ds ih =>
    cases ds' with
    | nil => cases h
    | cons y ds' =>
      obtain ⟨hxy, hrest⟩ := List.cons.inj h
      obtain ⟨hfield, hvalue⟩ := Prod.mk.inj hxy
      have happly : d.apply x = d.apply y := by
        unfold apply update?
        rw [hfield, hvalue]
      rw [List.foldl_cons, List.foldl_cons, happly]
      exact ih hrest

namespace Query

/-- Order, options and page of a text are what its directives outside all groups say. Whatever else
stands in it, and whatever operators the directives are written with, makes no difference to them;
and the text without these directives says the same filter and nothing else. -/
theorem directives_act_outside (s : String) (maxDepth : Nat) (q : Query)
    (h : parse s maxDepth = .ok q) :
    q.limit.toNat = Lexeme.lastNumber "limit" (directing s) ∧
      q.offset.toNat = Lexeme.lastNumber "offset" (directing s) ∧
      q.sort = ((directing s).flatMap (Lexeme.entries "sort")).map SortKey.ofEntry ∧
      (∀ name, q.hasOption name = true ↔
        ∃ x ∈ directing s, x.field = "option" ∧ name ∈ listEntries x.value) ∧
      (∀ names : List String, (∀ name, name ∈ names ↔ q.hasOption name = true) →
        q.options = .ofList names) ∧
      (∀ s' maxDepth' q', parse s' maxDepth' = .ok q' →
        (directing s').map (fun x => (x.field, x.value)) =
          (directing s).map (fun x => (x.field, x.value)) → q'.toDirectives = q.toDirectives) ∧
      s.toList = Lexeme.textOf (terms s) ∧
      parse (String.ofList (Lexeme.textOf (Lexeme.withoutDirectives 0 (terms s)))) maxDepth =
        .ok { sort := [], options := ∅, limit := 0, offset := 0, filter := q.filter } := by
  obtain ⟨htext, hspell⟩ := spell_of_parse h
  have hdirectives : q.toDirectives = (directing s).foldl Directives.apply {} := hspell.directives
  have hall := hdirectives
  rw [Directives.foldl_apply] at hall
  have hoptions :
      q.options = .ofList ((directing s).flatMap (Lexeme.entries "option")) :=
    congrArg Directives.options hall
  refine ⟨?_, ?_, ?_, ?_, ?_, ?_, htext, ?_⟩
  · rw [directing, ← Lexeme.toNat_lastCount? (hspell.denotesCount (.inl rfl))]
    exact congrArg (fun d => d.limit.toNat) hall
  · rw [directing, ← Lexeme.toNat_lastCount? (hspell.denotesCount (.inr rfl))]
    exact congrArg (fun d => d.offset.toNat) hall
  · exact congrArg Directives.sort hall
  · intro name
    rw [hasOption, hoptions, OptionSet.contains_ofList, List.contains_iff_mem, List.mem_flatMap]
    simp [Lexeme.entries]
  · intro names hnames
    refine OptionSet.eq_of_contains fun name => ?_
    rw [OptionSet.contains_ofList, Bool.eq_iff_iff, List.contains_iff_mem]
    exact (hnames name).symm
  · intro s' maxDepth' q' h' hmap
    obtain ⟨-, hspell'⟩ := spell_of_parse h'
    rw [hdirectives, hspell'.directives]
    exact Directives.foldl_apply_congr hmap
  · refine parse_of_spell String.toList_ofList ⟨?_, ?_, ?_, ?_⟩
    · exact hspell.terms.sublist (Lexeme.withoutDirectives_sublist 0 _)
    · exact Lexeme.wellNested_withoutDirectives hspell.nested
    · exact (Stack.build_withoutDirectives (s := {}) hspell.nested).trans hspell.filter
    · rw [Lexeme.directives_withoutDirectives]
      rfl

/-- The name of a directive inside a group is the field of a predicate. -/
theorem directives_act_outside_grouped :
    ∃ q, parse "limit=5&(sort=a|b=1)&sort=-b,,a&limit:+7" 32 = .ok q ∧
      q.limit = 7 ∧ q.sort = [⟨"b", true⟩, ⟨"a", false⟩] ∧
      Lexeme.lastNumber "limit" (directing "limit=5&(sort=a|b=1)&sort=-b,,a&limit:+7") = 7 ∧
      q.filter = [.group .start [.predicate .start ⟨.equal, "sort", "a"⟩,
        .predicate .or ⟨.equal, "b", "1"⟩]] ∧
      parse "&(sort=a|b=1)" 32 = .ok { filter := q.filter } := by
  have h : parse "limit=5&(sort=a|b=1)&sort=-b,,a&limit:+7" 32 = .ok {
      sort := [⟨"b", true⟩, ⟨"a", false⟩]
      limit := 7
      filter := [.group .start [.predicate .start ⟨.equal, "sort", "a"⟩,
        .predicate .or ⟨.equal, "b", "1"⟩]] } :=
    eq_ok_of_toOption (by decide +kernel)
  obtain ⟨hlimit, -, -, -, -, -, -, hrest⟩ := directives_act_outside _ 32 _ h
  have htext : String.ofList (Lexeme.textOf (Lexeme.withoutDirectives 0
      (terms "limit=5&(sort=a|b=1)&sort=-b,,a&limit:+7"))) = "&(sort=a|b=1)" := by
    decide +kernel
  rw [htext] at hrest
  exact ⟨_, h, rfl, rfl, hlimit.symm, rfl, hrest⟩

end Query
end UrlFilter
