import Mathlib.Data.List.Chain
import UrlFilter.Proofs.Token.Term
import UrlFilter.Sql.Where
import UrlFilter.Text.Digit

/-! Conditions as a reader of a statement understands them. `Reads` is the grammar: parentheses
bind tighter than AND, and AND binds tighter than OR. `Reads.unique` says that no text has two
readings, and `Reads.isSolid` that no text with a reading holds an empty pair of parentheses. -/
namespace UrlFilter.Sql

/-- A character of a plain column name. -/
def isNameChar (c : Char) : Bool :=
  c != ' ' && c != '(' && c != ')'

/-- A column name that does not run into what is written around it. -/
structure IsPlainName (name : String) : Prop where
  ne : name ≠ ""
  chars : ∀ c ∈ name.toList, isNameChar c = true

instance (name : String) : Decidable (IsPlainName name) :=
  decidable_of_iff (name ≠ "" ∧ name.toList.all isNameChar = true)
    ⟨fun h => ⟨h.1, List.all_eq_true.mp h.2⟩, fun h => ⟨h.ne, List.all_eq_true.mpr h.chars⟩⟩

/-- A comparison of a column with the parameter at a place. -/
structure Comparison where
  column : String
  op : Operator
  place : Nat
  deriving DecidableEq, Repr

/-- A condition without its parentheses. -/
inductive Condition where
  /-- `1=1`. -/
  | truth
  | test (c : Comparison)
  | both (a b : Condition)
  | either (a b : Condition)
  deriving DecidableEq, Repr

/-- Whether the condition holds where `valuation` says which comparisons do. -/
def Condition.holds (valuation : Comparison → Bool) : Condition → Bool
  | truth => true
  | test c => valuation c
  | both a b => a.holds valuation && b.holds valuation
  | either a b => a.holds valuation || b.holds valuation

/-- How much a reading takes in: an operand, operands joined by AND, or all that OR joins. -/
inductive Rank where
  | factor
  | conjunction
  | disjunction
  deriving DecidableEq, Repr

/-- The readings of a text. `1=1` is one `withTruth` alone. -/
inductive Reads (withTruth : Bool) : Rank → List Char → Condition → Prop
  | truth (h : withTruth = true) : Reads withTruth .factor "1=1".toList .truth
  | test {column : String} {digits : List Char} (op : Operator) (hcolumn : IsPlainName column)
      (hne : digits ≠ []) (hdigits : ∀ c ∈ digits, Text.isDigit c = true) :
      Reads withTruth .factor
        (column.toList ++ (' ' :: (op.sql.toList ++ (' ' :: '$' :: digits))))
        (.test ⟨column, op, Nat.ofDigitChars 10 digits 0⟩)
  | parens {s : List Char} {e : Condition} (h : Reads withTruth .disjunction s e) :
      Reads withTruth .factor ('(' :: (s ++ [')'])) e
  | factor {s : List Char} {e : Condition} (h : Reads withTruth .factor s e) :
      Reads withTruth .conjunction s e
  | both {s t : List Char} {a b : Condition} (hs : Reads withTruth .factor s a)
      (ht : Reads withTruth .conjunction t b) :
      Reads withTruth .conjunction (s ++ (" AND ".toList ++ t)) (.both a b)
  | conjunction {s : List Char} {e : Condition} (h : Reads withTruth .conjunction s e) :
      Reads withTruth .disjunction s e
  | either {s t : List Char} {a b : Condition} (hs : Reads withTruth .conjunction s a)
      (ht : Reads withTruth .disjunction t b) :
      Reads withTruth .disjunction (s ++ (" OR ".toList ++ t)) (.either a b)

variable {withTruth : Bool} {rank : Rank} {s t rest : List Char} {e : Condition}

/-- One more operand at the end of a conjunction. -/
theorem Reads.append_factor {a b : Condition} (hs : Reads withTruth .conjunction s a)
    (ht : Reads withTruth .factor t b) :
    ∃ e, Reads withTruth .conjunction (s ++ (" AND ".toList ++ t)) e ∧
      ∀ valuation, e.holds valuation = (a.holds valuation && b.holds valuation) := by
  generalize hrank : Rank.conjunction = rank at hs
  induction hs with
  | truth | test | parens | conjunction | either => cases hrank
  | factor hs => exact ⟨_, .both hs (.factor ht), fun _ => rfl⟩
  | @both _ _ first others hs _ _ ih =>
    obtain ⟨e, he, hholds⟩ := ih rfl
    refine ⟨.both first e, ?_, ?_⟩
    · rw [List.append_assoc, List.append_assoc]
      exact .both hs he
    · intro valuation
      show (first.holds valuation && e.holds valuation) =
        ((first.holds valuation && others.holds valuation) && b.holds valuation)
      rw [hholds, Bool.and_assoc]

/-! ## Where a reading ends -/

/-- What may stand behind a reading so that it cannot take in more. -/
def Follows : Rank → List Char → Prop
  | .disjunction, rest => rest = [] ∨ ∃ tail, rest = ')' :: tail
  | .conjunction, rest =>
    (rest = [] ∨ ∃ tail, rest = ')' :: tail) ∨ ∃ tail, rest = " OR ".toList ++ tail
  | .factor, rest =>
    ((rest = [] ∨ ∃ tail, rest = ')' :: tail) ∨ ∃ tail, rest = " OR ".toList ++ tail) ∨
      ∃ tail, rest = " AND ".toList ++ tail

theorem Follows.stopsAt {p : Char → Bool} (h : Follows .factor rest) (hclose : p ')' = false)
    (hblank : p ' ' = false) : StopsAt p rest := by
  rcases h with ((rfl | ⟨tail, rfl⟩) | ⟨tail, rfl⟩) | ⟨tail, rfl⟩
  · exact stopsAt_nil p
  · exact stopsAt_cons.mpr hclose
  · exact stopsAt_cons.mpr hblank
  · exact stopsAt_cons.mpr hblank

/-- No operator begins like a connective. -/
theorem Follows.ne_operator (h : Follows .factor rest) (op : Operator) (s : List Char) :
    rest ≠ ' ' :: (op.sql.toList ++ s) := by
  rcases h with ((rfl | ⟨tail, rfl⟩) | ⟨tail, rfl⟩) | ⟨tail, rfl⟩
  · simp
  · simp
  · cases op <;> simp [Operator.sql]
  · cases op <;> simp [Operator.sql]

theorem Follows.ne_and (h : Follows .conjunction rest) (s : List Char) :
    rest ≠ " AND ".toList ++ s := by
  rcases h with (rfl | ⟨tail, rfl⟩) | ⟨tail, rfl⟩ <;> simp

theorem Follows.ne_or (h : Follows .disjunction rest) (s : List Char) :
    rest ≠ " OR ".toList ++ s := by
  rcases h with rfl | ⟨tail, rfl⟩ <;> simp

/-! ## No text has two readings -/

theorem sql_injective {a b : Operator} (h : a.sql = b.sql) : a = b := by
  revert h
  cases a <;> cases b <;> decide

theorem ne_dollar_of_mem_sql {op : Operator} {c : Char} (h : c ∈ op.sql.toList ++ [' ']) :
    (c != '$') = true := by
  have hall : (op.sql.toList ++ [' ']).all (· != '$') = true := by cases op <;> decide
  exact List.all_eq_true.mp hall c h

/-- Behind the column of a comparison, the operator and the digits can be told apart. -/
theorem operator_digits_unique {op op' : Operator} {digits digits' rest rest' : List Char}
    (hdigits : ∀ c ∈ digits, Text.isDigit c = true)
    (hdigits' : ∀ c ∈ digits', Text.isDigit c = true)
    (hrest : StopsAt Text.isDigit rest) (hrest' : StopsAt Text.isDigit rest')
    (h : op.sql.toList ++ (' ' :: '$' :: (digits ++ rest)) =
      op'.sql.toList ++ (' ' :: '$' :: (digits' ++ rest'))) :
    op = op' ∧ digits = digits' := by
  have hblank (op : Operator) (s : List Char) :
      op.sql.toList ++ (' ' :: '$' :: s) = (op.sql.toList ++ [' ']) ++ ('$' :: s) := by simp
  have hdollar (s : List Char) : StopsAt (· != '$') ('$' :: s) := stopsAt_cons.mpr rfl
  rw [hblank, hblank] at h
  -- no operator holds a dollar sign, so the first one ends it
  have hop := congrArg (List.takeWhile (· != '$')) h
  rw [takeWhile_append_of_stopsAt (fun c => ne_dollar_of_mem_sql) (hdollar _),
    takeWhile_append_of_stopsAt (fun c => ne_dollar_of_mem_sql) (hdollar _)] at hop
  have htail := congrArg (List.dropWhile (· != '$')) h
  rw [dropWhile_append_of_stopsAt (fun c => ne_dollar_of_mem_sql) (hdollar _),
    dropWhile_append_of_stopsAt (fun c => ne_dollar_of_mem_sql) (hdollar _)] at htail
  have hrun := congrArg (List.takeWhile Text.isDigit) (List.cons.inj htail).2
  rw [takeWhile_append_of_stopsAt hdigits hrest,
    takeWhile_append_of_stopsAt hdigits' hrest'] at hrun
  exact ⟨sql_injective (String.toList_inj.mp (List.append_cancel_right hop)), hrun⟩

theorem truth_ne_test {column : String} {op : Operator} {s : List Char}
    (hcolumn : IsPlainName column) (hrest : Follows .factor rest) :
    "1=1".toList ++ rest ≠ column.toList ++ (' ' :: (op.sql.toList ++ s)) := by
  intro h
  have htail := congrArg (List.dropWhile isNameChar) h
  rw [dropWhile_append_of_stopsAt (List.all_eq_true.mp rfl) (hrest.stopsAt rfl rfl),
    dropWhile_append_of_stopsAt hcolumn.chars (stopsAt_cons.mpr rfl)] at htail
  exact hrest.ne_operator op s htail

theorem column_ne_paren {column : String} (hcolumn : IsPlainName column) (s t : List Char) :
    column.toList ++ s ≠ '(' :: t := by
  cases hc : column.toList with
  | nil => exact absurd (String.toList_inj.mp hc) hcolumn.ne
  | cons c cs =>
    intro h
    have hname := hcolumn.chars c (by simp [hc])
    rw [(List.cons.inj h).1] at hname
    simp [isNameChar] at hname

/-- What stands at the front of a text has one reading of a rank that takes in all it can. -/
theorem Reads.unique_prefix (h : Reads withTruth rank s e) {s' rest rest' : List Char}
    {e' : Condition} (h' : Reads withTruth rank s' e') (hrest : Follows rank rest)
    (hrest' : Follows rank rest') (heq : s ++ rest = s' ++ rest') : s = s' ∧ e = e' := by
  -- the first reading gives the cases, and what follows it decides the rule of the second
  induction h generalizing s' rest rest' e' with
  | truth _ =>
    cases h' with
    | truth _ => exact ⟨rfl, rfl⟩
    | test op hcolumn _ _ =>
      simp only [List.append_assoc, List.cons_append] at heq
      exact absurd heq (truth_ne_test hcolumn hrest)
    | parens _ => simp at heq
  | test op hcolumn _ hdigits =>
    simp only [List.append_assoc, List.cons_append] at heq
    cases h' with
    | truth _ => exact absurd heq.symm (truth_ne_test hcolumn hrest')
    | test op' hcolumn' _ hdigits' =>
      simp only [List.append_assoc, List.cons_append] at heq
      have hname := congrArg (List.takeWhile isNameChar) heq
      rw [takeWhile_append_of_stopsAt hcolumn.chars (stopsAt_cons.mpr rfl),
        takeWhile_append_of_stopsAt hcolumn'.chars (stopsAt_cons.mpr rfl)] at hname
      have hcol := String.toList_inj.mp hname
      subst hcol
      have htail := List.append_cancel_left heq
      obtain ⟨rfl, rfl⟩ := operator_digits_unique hdigits hdigits' (hrest.stopsAt rfl rfl)
        (hrest'.stopsAt rfl rfl) (List.cons.inj htail).2
      exact ⟨rfl, rfl⟩
    | parens _ => exact absurd heq (column_ne_paren hcolumn _ _)
  | parens _ ih =>
    cases h' with
    | truth _ => simp at heq
    | test op hcolumn _ _ =>
      rw [List.append_assoc] at heq
      exact absurd heq.symm (column_ne_paren hcolumn _ _)
    | parens h' =>
      simp only [List.cons_append, List.append_assoc, List.cons.injEq, true_and] at heq
      obtain ⟨rfl, rfl⟩ := ih h' (.inr ⟨_, rfl⟩) (.inr ⟨_, rfl⟩) heq
      exact ⟨rfl, rfl⟩
  | factor _ ih =>
    cases h' with
    | factor h' => exact ih h' (.inl hrest) (.inl hrest') heq
    | both hs' _ =>
      -- the second reading goes on behind the same operand, where the first one ends
      rw [List.append_assoc, List.append_assoc] at heq
      obtain ⟨rfl, -⟩ := ih hs' (.inl hrest) (.inr ⟨_, rfl⟩) heq
      exact absurd (List.append_cancel_left heq) (hrest.ne_and _)
  | both _ _ ihs iht =>
    rw [List.append_assoc, List.append_assoc] at heq
    cases h' with
    | factor h' =>
      obtain ⟨rfl, -⟩ := ihs h' (.inr ⟨_, rfl⟩) (.inl hrest') heq
      exact absurd (List.append_cancel_left heq).symm (hrest'.ne_and _)
    | both hs' ht' =>
      rw [List.append_assoc, List.append_assoc] at heq
      obtain ⟨rfl, rfl⟩ := ihs hs' (.inr ⟨_, rfl⟩) (.inr ⟨_, rfl⟩) heq
      have htail := List.append_cancel_left (List.append_cancel_left heq)
      obtain ⟨rfl, rfl⟩ := iht ht' hrest hrest' htail
      exact ⟨rfl, rfl⟩
  | conjunction _ ih =>
    cases h' with
    | conjunction h' => exact ih h' (.inl hrest) (.inl hrest') heq
    | either hs' _ =>
      rw [List.append_assoc, List.append_assoc] at heq
      obtain ⟨rfl, -⟩ := ih hs' (.inl hrest) (.inr ⟨_, rfl⟩) heq
      exact absurd (List.append_cancel_left heq) (hrest.ne_or _)
  | either _ _ ihs iht =>
    rw [List.append_assoc, List.append_assoc] at heq
    cases h' with
    | conjunction h' =>
      obtain ⟨rfl, -⟩ := ihs h' (.inr ⟨_, rfl⟩) (.inl hrest') heq
      exact absurd (List.append_cancel_left heq).symm (hrest'.ne_or _)
    | either hs' ht' =>
      rw [List.append_assoc, List.append_assoc] at heq
      obtain ⟨rfl, rfl⟩ := ihs hs' (.inr ⟨_, rfl⟩) (.inr ⟨_, rfl⟩) heq
      have htail := List.append_cancel_left (List.append_cancel_left heq)
      obtain ⟨rfl, rfl⟩ := iht ht' hrest hrest' htail
      exact ⟨rfl, rfl⟩

/-- A condition has one reading. -/
theorem Reads.unique {a b : Condition} (ha : Reads withTruth .disjunction s a)
    (hb : Reads withTruth .disjunction s b) : a = b :=
  (ha.unique_prefix hb (.inl rfl) (.inl rfl) rfl).2

/-! ## No reading has an empty pair of parentheses -/

/-- No `(` stands directly before a `)` in the text, and none would if the text stood before or
behind another such text. -/
structure IsSolid (s : List Char) : Prop where
  inner : s.IsChain fun a b => ¬ (a = '(' ∧ b = ')')
  ne : s ≠ []
  head : ∀ c ∈ s.head?, c ≠ ')'
  last : ∀ c ∈ s.getLast?, c ≠ '('

theorem IsSolid.append (hs : IsSolid s) (ht : IsSolid t) : IsSolid (s ++ t) := by
  refine ⟨?_, by simp [hs.ne], ?_, ?_⟩
  · refine List.isChain_append.mpr ⟨hs.inner, ht.inner, ?_⟩
    rintro a ha b - ⟨rfl, -⟩
    exact hs.last _ ha rfl
  · intro c hc
    rw [List.head?_append_of_ne_nil _ hs.ne] at hc
    exact hs.head c hc
  · intro c hc
    rw [List.getLast?_append_of_ne_nil _ ht.ne] at hc
    exact ht.last c hc

theorem isSolid_of_no_parens (hne : s ≠ []) (h : ∀ c ∈ s, c ≠ '(' ∧ c ≠ ')') : IsSolid s := by
  refine ⟨?_, hne, fun c hc => (h c (List.mem_of_mem_head? hc)).2,
    fun c hc => (h c (List.mem_of_mem_getLast? hc)).1⟩
  refine List.Pairwise.isChain (List.pairwise_of_forall_mem_list ?_)
  rintro a ha b - ⟨rfl, -⟩
  exact (h _ ha).1 rfl

theorem Reads.isSolid (h : Reads withTruth rank s e) : IsSolid s := by
  induction h with
  | truth _ => exact isSolid_of_no_parens (by simp) (by simp)
  | @test column digits op hcolumn _ hdigits =>
    apply isSolid_of_no_parens (by simp)
    intro c hc
    have hsql : ∀ c ∈ op.sql.toList, c ≠ '(' ∧ c ≠ ')' := by cases op <;> simp [Operator.sql]
    simp only [List.mem_append, List.mem_cons] at hc
    rcases hc with hc | rfl | hc | rfl | rfl | hc
    · have hname := hcolumn.chars c hc
      simp only [isNameChar, Bool.and_eq_true, bne_iff_ne] at hname
      exact ⟨hname.1.2, hname.2⟩
    · decide
    · exact hsql c hc
    · decide
    · decide
    · have hdigit := hdigits c hc
      constructor <;> rintro rfl <;> simp [Text.isDigit] at hdigit
  | @parens s _ _ ih =>
    refine ⟨?_, by simp, by simp, ?_⟩
    · refine List.isChain_cons.mpr ⟨?_, ?_⟩
      · rintro c hc ⟨-, rfl⟩
        rw [List.head?_append_of_ne_nil _ ih.ne] at hc
        exact ih.head _ hc rfl
      · refine List.isChain_append.mpr ⟨ih.inner, List.isChain_singleton _, ?_⟩
        rintro c hc d - ⟨rfl, -⟩
        exact ih.last _ hc rfl
    · intro c hc
      rw [← List.cons_append, List.getLast?_concat] at hc
      cases hc
      decide
  | factor _ ih => exact ih
  | both _ _ ihs iht => exact ihs.append ((isSolid_of_no_parens (by simp) (by simp)).append iht)
  | conjunction _ ih => exact ih
  | either _ _ ihs iht => exact ihs.append ((isSolid_of_no_parens (by simp) (by simp)).append iht)

theorem not_isSolid_of_empty_parens (s t : List Char) : ¬ IsSolid (s ++ ('(' :: ')' :: t)) := by
  intro h
  obtain ⟨-, h, -⟩ := List.isChain_append.mp h.inner
  exact (List.isChain_cons_cons.mp h).1 ⟨rfl, rfl⟩

end UrlFilter.Sql
