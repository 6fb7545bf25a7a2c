import UrlFilter.Proofs.Filter.Meaning
import UrlFilter.Proofs.Token.Term

/-! Filters in the form that texts have, and how they are written. A canonical filter has nothing
that a text could not say: `Term.IsCanonical` follows the tree down and says at each level what may
stand there. `Filter.write` is the text of a filter, with every operator in its first spelling. -/
namespace UrlFilter

/-- Whether the predicate would be a directive outside all groups. -/
def Predicate.HasDirectiveName (p : Predicate) : Prop :=
  p.field = "limit" ∨ p.field = "offset" ∨ p.field = "sort" ∨ p.field = "option"

instance (p : Predicate) : Decidable p.HasDirectiveName :=
  inferInstanceAs (Decidable (_ ∨ _ ∨ _ ∨ _))

/-- Whether the predicate is read back from its field, the symbol of its operator and its value:
of all spellings its symbol is the first that leaves something of symbol and value. -/
structure Predicate.IsWritable (p : Predicate) : Prop where
  field_ne : p.field ≠ ""
  field_chars : ∀ c ∈ p.field.toList, isFieldChar c = true
  value_ne : p.value ≠ ""
  value_chars : ∀ c ∈ p.value.toList, isValueChar c = true
  op : ∃ before after, Operator.spellings = before ++ p.op.symbol :: after ∧
    ∀ other ∈ before, ∀ rest, rest ≠ [] →
      p.op.symbol.toList ++ p.value.toList ≠ other.toList ++ rest

/-- Whether the first term is joined to nothing, and each other one by AND or OR. -/
def Filter.IsLinked : Filter → Prop
  | [] => True
  | t :: ts => t.link = .start ∧ ∀ u ∈ ts, u.link = .and ∨ u.link = .or

/-- What a text can say inside `depth` parentheses: a predicate that is read back, outside all
parentheses no directive; or one more group, if so many are allowed, that holds terms and is no
second pair of parentheses around another group. -/
inductive Term.IsCanonical (maxDepth : Nat) : Nat → Term → Prop
  | predicate {depth : Nat} {link : Connective} {p : Predicate} (writable : p.IsWritable)
      (no_directive : depth = 0 → ¬ p.HasDirectiveName) :
      IsCanonical maxDepth depth (.predicate link p)
  | group {depth : Nat} {link : Connective} {terms : Filter} (depth_lt : depth < maxDepth)
      (ne_nil : terms ≠ []) (not_lone : ∀ inner ts, terms ≠ [.group inner ts])
      (linked : terms.IsLinked) (canonical : ∀ t ∈ terms, IsCanonical maxDepth (depth + 1) t) :
      IsCanonical maxDepth depth (.group link terms)

/-- Whether the filter is one that a text has where `maxDepth` parentheses are allowed. -/
structure Filter.IsCanonical (maxDepth : Nat) (f : Filter) : Prop where
  linked : f.IsLinked
  terms : ∀ t ∈ f, t.IsCanonical maxDepth 0

mutual

/-- The text of a term without its joining symbol. -/
def Term.body : Term → String
  | predicate _ p => p.field ++ p.op.symbol ++ p.value
  | group _ terms => "(" ++ bodies terms ++ ")"

/-- The texts of terms in a row, each behind its joining symbol. -/
def Term.bodies : List Term → String
  | [] => ""
  | t :: ts => (t.link.symbol?.getD "" ++ t.body) ++ bodies ts

end

/-- The text of a filter. -/
def Filter.write (f : Filter) : String :=
  Term.bodies f

/-! ## What a canonical filter has not -/

namespace Term

variable {maxDepth depth : Nat} {t : Term}

theorem anyHasEmptyGroup_eq_false_iff {ts : List Term} :
    anyHasEmptyGroup ts = false ↔ ∀ t ∈ ts, t.hasEmptyGroup = false := by
  induction ts with
  | nil => simp [anyHasEmptyGroup]
  | cons t ts ih => simp [anyHasEmptyGroup, ih]

theorem nestingOf_le_iff {ts : List Term} {n : Nat} :
    nestingOf ts ≤ n ↔ ∀ t ∈ ts, t.nesting ≤ n := by
  induction ts with
  | nil => simp [nestingOf]
  | cons t ts ih => rw [nestingOf, Nat.max_le, ih, List.forall_mem_cons]

theorem IsCanonical.hasEmptyGroup_eq_false (h : t.IsCanonical maxDepth depth) :
    t.hasEmptyGroup = false := by
  induction h with
  | predicate _ _ => rfl
  | group _ ne_nil _ _ _ ih =>
    rw [hasEmptyGroup, anyHasEmptyGroup_eq_false_iff.mpr ih, Bool.or_false]
    simpa using ne_nil

theorem IsCanonical.nesting_le (h : t.IsCanonical maxDepth depth) :
    t.nesting ≤ maxDepth - depth := by
  induction h with
  | predicate _ _ => exact Nat.zero_le _
  | group depth_lt _ _ _ _ ih =>
    have hterms := nestingOf_le_iff.mpr ih
    rw [nesting]
    omega

end Term

namespace Filter.IsCanonical

variable {maxDepth : Nat} {f : Filter}

theorem hasEmptyGroup_eq_false (h : f.IsCanonical maxDepth) : f.hasEmptyGroup = false :=
  Term.anyHasEmptyGroup_eq_false_iff.mpr fun t ht => (h.terms t ht).hasEmptyGroup_eq_false

theorem nesting_le (h : f.IsCanonical maxDepth) : f.nesting ≤ maxDepth :=
  Term.nestingOf_le_iff.mpr fun t ht => (h.terms t ht).nesting_le

end Filter.IsCanonical

/-! ## Where an operator is read back -/

theorem Operator.isValueChar_of_mem_symbol {op : Operator} {c : Char}
    (h : c ∈ op.symbol.toList) : isValueChar c = true :=
  isValueChar_of_mem_spellings op.symbol_mem_spellings c h

/-- Only two spellings are not the symbol of their operator. -/
theorem Operator.eq_symbol_of_ofSpelling? {s : String} {op : Operator}
    (h : ofSpelling? s = some op) :
    s = op.symbol ∨ s = "=<" ∧ op = .lessEqual ∨ s = "=>" ∧ op = .greaterEqual := by
  unfold ofSpelling? at h
  split at h <;> simp at h <;> subst h <;> simp [symbol]

namespace Predicate

variable {p : Predicate}

theorem isValueChar_of_mem_written (h : ∀ c ∈ p.value.toList, isValueChar c = true) :
    ∀ c ∈ p.op.symbol.toList ++ p.value.toList, isValueChar c = true := by
  intro c hc
  rcases List.mem_append.mp hc with hc | hc
  · exact Operator.isValueChar_of_mem_symbol hc
  · exact h c hc

/-- Where the value ends, the symbol is the first spelling that leaves a value. -/
theorem IsWritable.isFirstSpelling (h : p.IsWritable) {tail : List Char}
    (ht : StopsAt isValueChar tail) :
    IsFirstSpelling p.op.symbol (p.op.symbol.toList ++ (p.value.toList ++ tail)) := by
  have hchars := isValueChar_of_mem_written h.value_chars
  have hvalue : p.value.toList ≠ [] := fun he => h.value_ne (String.toList_inj.mp he)
  obtain ⟨before, after, hl, hbefore⟩ := h.op
  rw [← List.append_assoc]
  refine ⟨leavesValue_of_eq_append hchars hvalue rfl, before, after, hl, ?_⟩
  intro other hother hleaves
  have hmem : other ∈ Operator.spellings := by
    rw [hl]
    exact List.mem_append_left _ hother
  obtain ⟨rest, hne, heq⟩ :=
    eq_append_of_leavesValue (isValueChar_of_mem_spellings hmem) ht hleaves
  exact hbefore other hother rest hne heq

end Predicate

/-- A term at the front of a text spells a predicate that is read back from its symbol, even if it
was written with a second spelling. -/
theorem Lexeme.IsTerm.isWritable {first : Bool} {x : Lexeme} {rest : List Char} {op : Operator}
    (h : x.IsTerm first rest) (hop : Operator.ofSpelling? x.op = some op) :
    Predicate.IsWritable ⟨op, x.field, x.value⟩ := by
  refine ⟨h.field_ne, h.field_chars, h.value_ne, h.value_chars, ?_⟩
  dsimp only
  rcases Operator.eq_symbol_of_ofSpelling? hop with hsymbol | ⟨-, rfl⟩ | ⟨-, rfl⟩
  · obtain ⟨-, before, after, hl, hbefore⟩ := h.op
    rw [← hsymbol]
    refine ⟨before, after, hl, ?_⟩
    intro other hother left hne heq
    apply hbefore other hother
    rw [afterField, ← List.append_assoc]
    refine leavesValue_of_eq_append ?_ hne heq
    rw [hsymbol]
    exact Predicate.isValueChar_of_mem_written (p := ⟨op, x.field, x.value⟩) h.value_chars
  · -- no spelling that is tried before the symbol begins as the symbol does
    refine ⟨["!=~~", "=~~", "!=~", "!:~", "=~", "!:", ":~"], _, rfl, ?_⟩
    simp [Operator.symbol]
  · refine ⟨["!=~~", "=~~", "!=~", "!:~", "=~", "!:", ":~", "<=", "=<"], _, rfl, ?_⟩
    simp [Operator.symbol]

end UrlFilter
