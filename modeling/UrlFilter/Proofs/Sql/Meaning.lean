import UrlFilter.Proofs.Query.Shape
import UrlFilter.Proofs.Schema.Resolution
import UrlFilter.Proofs.Sql.Where
import UrlFilter.Sql.Statement

/-! The clause of a filter means what the filter does. A list of terms is read from left to right:
behind a conjunction that is read already, `reads_rest` reads the terms up to the next OR as more
operands of it. A group that holds nothing leaves an empty pair of parentheses, which no reading
has. -/
namespace UrlFilter.Sql

/-- Whether the columns have plain names. -/
def HasPlainNames (fields : FilterFields) : Prop :=
  ∀ entry ∈ fields.entries, IsPlainName entry.1

instance (fields : FilterFields) : Decidable (HasPlainNames fields) :=
  decidable_of_iff (fields.entries.all fun entry => IsPlainName entry.1)
    (by simp [HasPlainNames])

/-- Whether the comparisons that these predicates stand for hold just where the predicates do. The
first of them has the number `n + 1`. -/
def Agrees (fields : FilterFields) (comparisons : Comparison → Bool) (predicates : Nat → Bool)
    (n : Nat) (ps : List Predicate) : Prop :=
  ∀ i p c, ps[i]? = some p → comparison? fields (n + i + 1) p = some c →
    comparisons c = predicates (n + i + 1)

variable {fields : FilterFields} {withTruth : Bool} {comparisons : Comparison → Bool}
  {predicates : Nat → Bool} {n : Nat} {ps qs : List Predicate}

theorem Agrees.left (h : Agrees fields comparisons predicates n (ps ++ qs)) :
    Agrees fields comparisons predicates n ps := by
  intro i p c hp hc
  refine h i p c ?_ hc
  rw [List.getElem?_append_left (List.getElem?_eq_some_iff.mp hp).1]
  exact hp

theorem Agrees.right (h : Agrees fields comparisons predicates n (ps ++ qs)) :
    Agrees fields comparisons predicates (n + ps.length) qs := by
  intro i p c hp hc
  rw [Nat.add_assoc n] at hc ⊢
  refine h (ps.length + i) p c ?_ hc
  rw [List.getElem?_append_right (Nat.le_add_right _ _), Nat.add_sub_cancel_left]
  exact hp

/-- Comparisons that hold as their numbers say agree with all predicates. -/
theorem agrees_place (fields : FilterFields) (predicates : Nat → Bool) (n : Nat)
    (ps : List Predicate) : Agrees fields (fun c => predicates c.place) predicates n ps := by
  intro i p c _ hc
  unfold comparison? at hc
  obtain ⟨entry, -, rfl⟩ := Option.map_eq_some_iff.mp hc
  rfl

/-! ## Readings of what is written -/

theorem toList_placeholder (place : Nat) :
    (Parameter.placeholder place).toList = '$' :: Nat.toDigits 10 place := by
  simp [Parameter.placeholder]

/-- A comparison with a plain column is read as itself. -/
theorem reads_sql {c : Comparison} (h : IsPlainName c.column) :
    Reads withTruth .factor c.sql.toList (.test c) := by
  have htest : Reads withTruth .factor _ (.test ⟨c.column, c.op, _⟩) :=
    .test c.op h Nat.toDigits_ne_nil fun d (hd : d ∈ Nat.toDigits 10 c.place) =>
      Text.isDigit_of_mem_toDigits hd
  rw [Nat.ofDigitChars_ten_toDigits] at htest
  simpa [Comparison.sql, toList_placeholder] using htest

theorem isPlainName_of_find? {search column : String} {type : FieldType}
    (hplain : HasPlainNames fields) (h : fields.find? search = some (column, type)) :
    IsPlainName column :=
  hplain _ (FilterFields.mem_of_find? h)

mutual

theorem reads_termText (hplain : HasPlainNames fields) (n : Nat) (t : Term)
    (hfull : t.hasEmptyGroup = false)
    (hfind : ∀ p ∈ t.predicates, (fields.find? p.field).isSome) :
    ∃ e, Reads withTruth .factor (termText fields n t).toList e ∧
      ∀ comparisons predicates, Agrees fields comparisons predicates n t.predicates →
        e.holds comparisons = t.value predicates n := by
  cases t with
  | predicate link test =>
    have hmem : test ∈ (Term.predicate link test).predicates := List.mem_singleton_self test
    obtain ⟨⟨column, type⟩, hentry⟩ := Option.isSome_iff_exists.mp (hfind test hmem)
    have hc : comparison? fields (n + 1) test = some ⟨column, test.op, n + 1⟩ := by
      rw [comparison?, hentry]
      rfl
    refine ⟨.test ⟨column, test.op, n + 1⟩, ?_, ?_⟩
    · rw [termText, hc]
      exact reads_sql (isPlainName_of_find? hplain hentry)
    · intro comparisons predicates hagree
      exact hagree 0 test _ rfl hc
  | group link terms =>
    rw [Term.hasEmptyGroup, Bool.or_eq_false_iff] at hfull
    have hne : terms ≠ [] := by simpa using hfull.1
    obtain ⟨e, he, hvalue⟩ := reads_termsText hplain n terms hne hfull.2 hfind
    refine ⟨e, ?_, hvalue⟩
    simpa [termText] using Reads.parens he

theorem reads_termsText (hplain : HasPlainNames fields) (n : Nat) (ts : List Term)
    (hne : ts ≠ []) (hfull : Term.anyHasEmptyGroup ts = false)
    (hfind : ∀ p ∈ Term.predicatesOf ts, (fields.find? p.field).isSome) :
    ∃ e, Reads withTruth .disjunction (termsText fields true n ts).toList e ∧
      ∀ comparisons predicates,
        Agrees fields comparisons predicates n (Term.predicatesOf ts) →
          e.holds comparisons = anyRunHolds (Term.values predicates n ts) := by
  cases ts with
  | nil => exact absurd rfl hne
  | cons t rest =>
    rw [Term.anyHasEmptyGroup, Bool.or_eq_false_iff] at hfull
    rw [Term.predicatesOf] at hfind
    obtain ⟨a, ha, hta⟩ := reads_termText hplain n t hfull.1
      fun p hp => hfind p (List.mem_append_left _ hp)
    obtain ⟨e, he, hrest⟩ := reads_rest hplain (n + t.predicates.length) rest hfull.2
      (fun p hp => hfind p (List.mem_append_right _ hp)) (.factor ha)
    refine ⟨e, by simpa [termsText] using he, ?_⟩
    intro comparisons predicates hagree
    rw [hrest comparisons predicates hagree.right, hta comparisons predicates hagree.left,
      Term.values, anyRunHolds_cons]

/-- Terms that follow a conjunction extend it up to the first term that is joined by OR. -/
theorem reads_rest (hplain : HasPlainNames fields) (n : Nat) (ts : List Term)
    (hfull : Term.anyHasEmptyGroup ts = false)
    (hfind : ∀ p ∈ Term.predicatesOf ts, (fields.find? p.field).isSome)
    {s : List Char} {a : Condition} (hs : Reads withTruth .conjunction s a) :
    ∃ e, Reads withTruth .disjunction (s ++ (termsText fields false n ts).toList) e ∧
      ∀ comparisons predicates,
        Agrees fields comparisons predicates n (Term.predicatesOf ts) →
          e.holds comparisons =
            holdsFrom (a.holds comparisons) (Term.values predicates n ts) := by
  cases ts with
  | nil => exact ⟨a, by simpa [termsText] using Reads.conjunction hs, fun _ _ _ => rfl⟩
  | cons t rest =>
    rw [Term.anyHasEmptyGroup, Bool.or_eq_false_iff] at hfull
    rw [Term.predicatesOf] at hfind
    obtain ⟨b, hb, htb⟩ := reads_termText hplain n t hfull.1
      fun p hp => hfind p (List.mem_append_left _ hp)
    have hfind' : ∀ p ∈ Term.predicatesOf rest, (fields.find? p.field).isSome :=
      fun p hp => hfind p (List.mem_append_right _ hp)
    by_cases hor : t.link = .or
    · -- the conjunction ends here, and the terms from this one on are read anew
      obtain ⟨e, he, hrest⟩ := reads_rest hplain (n + t.predicates.length) rest hfull.2 hfind'
        (.factor hb)
      refine ⟨.either a e, ?_, ?_⟩
      · simpa [termsText, joiner, hor] using Reads.either hs he
      · intro comparisons predicates hagree
        rw [Condition.holds, hrest comparisons predicates hagree.right,
          htb comparisons predicates hagree.left, Term.values, hor, holdsFrom]
    · -- START joins as AND does
      obtain ⟨c, hc, hboth⟩ := hs.append_factor hb
      obtain ⟨e, he, hrest⟩ := reads_rest hplain (n + t.predicates.length) rest hfull.2 hfind' hc
      have hjoin : joiner t.link = " AND " := by
        cases hl : t.link with
        | or => exact absurd hl hor
        | and | start => rfl
      refine ⟨e, ?_, ?_⟩
      · simpa [termsText, hjoin] using he
      · intro comparisons predicates hagree
        rw [hrest comparisons predicates hagree.right, hboth,
          htb comparisons predicates hagree.left, Term.values, holdsFrom_of_ne_or hor]

end

/-! ## Empty groups have no reading -/

mutual

theorem termText_of_emptyGroup (n : Nat) (t : Term) (h : t.hasEmptyGroup = true) :
    ∃ before after, (termText fields n t).toList = before ++ ('(' :: ')' :: after) := by
  cases t with
  | predicate link test => simp [Term.hasEmptyGroup] at h
  | group link terms =>
    rw [Term.hasEmptyGroup, Bool.or_eq_true] at h
    rcases h with h | h
    · refine ⟨[], [], ?_⟩
      rw [List.isEmpty_iff.mp h]
      simp [termText, termsText]
    · obtain ⟨before, after, htext⟩ := termsText_of_emptyGroup true n terms h
      refine ⟨'(' :: before, after ++ [')'], ?_⟩
      simp [termText, htext]

theorem termsText_of_emptyGroup (first : Bool) (n : Nat) (ts : List Term)
    (h : Term.anyHasEmptyGroup ts = true) :
    ∃ before after, (termsText fields first n ts).toList =
      before ++ ('(' :: ')' :: after) := by
  cases ts with
  | nil => simp [Term.anyHasEmptyGroup] at h
  | cons t rest =>
    rw [Term.anyHasEmptyGroup, Bool.or_eq_true] at h
    rcases h with h | h
    · obtain ⟨before, after, htext⟩ := termText_of_emptyGroup n t h
      refine ⟨(if first then "" else joiner t.link).toList ++ before,
        after ++ (termsText fields false (n + t.predicates.length) rest).toList, ?_⟩
      simp [termsText, htext]
    · obtain ⟨before, after, htext⟩ :=
        termsText_of_emptyGroup false (n + t.predicates.length) rest h
      refine ⟨((if first then "" else joiner t.link) ++ termText fields n t).toList ++ before,
        after, ?_⟩
      simp [termsText, htext]

end

/-! ## The clause of a filter -/

theorem isSome_find?_of_areBound {ps : List Predicate} {bs : List Binding}
    (h : AreBound fields ps bs) : ∀ p ∈ ps, (fields.find? p.field).isSome := by
  induction h with
  | nil => simp
  | cons hb _ ih =>
    intro p hp
    rcases List.mem_cons.mp hp with rfl | hp
    · obtain ⟨hc, -⟩ := ofPredicate_eq_ok 0 hb
      unfold comparison? at hc
      obtain ⟨entry, hentry, -⟩ := Option.map_eq_some_iff.mp hc
      simp [hentry]
    · exact ih p hp

/-- What a filter adds to a draft has a reading exactly if no group of the filter is empty, and
this reading means what the filter does. -/
theorem reads_addFilter (hplain : HasPlainNames fields) {d d' : Draft} {f : Filter}
    (hne : f ≠ []) (h : Draft.addFilter fields d f = ⟨d', none⟩) :
    ∃ text params, d' = d.extend text params ∧ params.length = f.predicateCount ∧
      (f.hasEmptyGroup = true → ∀ e, ¬ Reads withTruth .disjunction text.toList e) ∧
      (f.hasEmptyGroup = false → ∃ e, Reads withTruth .disjunction text.toList e ∧
        ∀ comparisons predicates,
          Agrees fields comparisons predicates d.params.length f.predicates →
            e.holds comparisons = f.value predicates d.params.length) := by
  obtain ⟨bs, hbs, rfl⟩ := Draft.addTerms_eq_ok h
  refine ⟨_, _, rfl, ?_, ?_, ?_⟩
  · rw [List.length_map, ← hbs.length_eq]
    rfl
  · intro hempty e he
    obtain ⟨before, after, htext⟩ := termsText_of_emptyGroup true d.params.length f hempty
    have hsolid := he.isSolid
    rw [htext] at hsolid
    exact not_isSolid_of_empty_parens before after hsolid
  · intro hfull
    obtain ⟨e, he, hvalue⟩ := reads_termsText hplain d.params.length f hne hfull
      (isSome_find?_of_areBound hbs)
    refine ⟨e, he, ?_⟩
    intro comparisons predicates hagree
    rw [hvalue comparisons predicates hagree, Filter.value, List.isEmpty_eq_false_iff.mpr hne,
      Bool.false_or]

/-- The clause of a filter that is lowered into an empty text. -/
theorem reads_clause (hplain : HasPlainNames fields) {params : List Parameter} {d : Draft}
    {f : Filter} (hne : f ≠ []) (h : Draft.addFilter fields ⟨"", params⟩ f = ⟨d, none⟩) :
    ((∃ e, Reads false .disjunction d.clause.toList e) ↔ f.hasEmptyGroup = false) ∧
      ∀ e, Reads false .disjunction d.clause.toList e → ∀ comparisons predicates,
        Agrees fields comparisons predicates params.length f.predicates →
          e.holds comparisons = f.value predicates params.length := by
  obtain ⟨text, added, rfl, -, hempty, hfull⟩ := reads_addFilter hplain hne h
  rw [show (Draft.extend ⟨"", params⟩ text added).clause = text from String.empty_append]
  cases hf : f.hasEmptyGroup with
  | true =>
    refine ⟨⟨fun ⟨e, he⟩ => absurd he (hempty hf e), by simp⟩, ?_⟩
    intro e he
    exact absurd he (hempty hf e)
  | false =>
    obtain ⟨e, he, hvalue⟩ := hfull hf
    refine ⟨⟨fun _ => rfl, fun _ => ⟨e, he⟩⟩, ?_⟩
    intro e' he'
    rw [he'.unique he]
    exact hvalue

/-- The clause of a nonempty filter is a condition exactly if no group of the filter is empty, and
then holds where the filter does. Every query text with a filter that fits the schema has such a
clause. -/
theorem clause_means_filter (fields : FilterFields) (hplain : HasPlainNames fields) :
    (∀ (f : Filter) (params : List Parameter) (d : Draft), f ≠ [] →
      Draft.addFilter fields ⟨"", params⟩ f = ⟨d, none⟩ →
        ((∃ e, Reads false .disjunction d.clause.toList e) ↔ f.hasEmptyGroup = false) ∧
        ∀ e, Reads false .disjunction d.clause.toList e → ∀ comparisons predicates,
          Agrees fields comparisons predicates params.length f.predicates →
            e.holds comparisons = f.value predicates params.length) ∧
    ∀ (s : String) (maxDepth : Nat) (q : Query) (schema : Schema) (fragment : Fragment),
      schema.filterFields = fields → Query.parse s maxDepth = .ok q → q.filter ≠ [] →
        Fragment.ofQuery schema q = .ok fragment →
          ∃ e, Reads false .disjunction fragment.whereClause.toList e := by
  refine ⟨fun f params d hne h => reads_clause hplain hne h, ?_⟩
  rintro s maxDepth q schema fragment rfl hparse hne h
  unfold Fragment.ofQuery at h
  split at h
  · simp at h
  · rename_i d hd
    cases h
    exact (reads_clause hplain hne hd).1.mpr (Query.hasEmptyGroup_of_parse hparse)

/-- A group behind OR keeps its parentheses, and AND inside it binds its terms alone. -/
theorem clause_means_filter_nested :
    HasPlainNames (.ofList [("a", .numeric), ("b", .string)]) ∧
    ∃ q fragment e, Query.parse "a=1|(b=2&a=3)" 32 = .ok q ∧
      Fragment.ofQuery ⟨.ofList [("a", .numeric), ("b", .string)], {}⟩ q = .ok fragment ∧
      fragment.whereClause = "a = $1 OR (b = $2 AND a = $3)" ∧
      Reads false .disjunction fragment.whereClause.toList e ∧
      ∀ predicates : Nat → Bool, e.holds (fun c => predicates c.place) =
        (predicates 1 || (predicates 2 && predicates 3)) := by
  have hplain : HasPlainNames (.ofList [("a", .numeric), ("b", .string)]) := by decide +kernel
  obtain ⟨f, hparse, hlower, hne, hvalue⟩ : ∃ f : Filter,
      Query.parse "a=1|(b=2&a=3)" 32 = .ok { filter := f } ∧
      Draft.addFilter (.ofList [("a", .numeric), ("b", .string)]) {} f =
        ⟨⟨"a = $1 OR (b = $2 AND a = $3)", [.text "1", .text "2", .text "3"]⟩, none⟩ ∧
      f ≠ [] ∧ ∀ predicates, f.value predicates 0 =
        (predicates 1 || (predicates 2 && predicates 3)) := by
    refine ⟨[.predicate .start ⟨.equal, "a", "1"⟩,
      .group .or [.predicate .start ⟨.equal, "b", "2"⟩, .predicate .and ⟨.equal, "a", "3"⟩]],
      eq_ok_of_toOption (by decide +kernel), by decide +kernel, by simp, ?_⟩
    intro predicates
    simp [Filter.value, Term.values, Term.value, Term.link, Term.predicates, anyRunHolds_cons,
      holdsFrom]
  have hfragment : Fragment.ofQuery ⟨.ofList [("a", .numeric), ("b", .string)], {}⟩
      { filter := f } =
        .ok ⟨"a = $1 OR (b = $2 AND a = $3)", "", [.text "1", .text "2", .text "3"]⟩ := by
    simp only [Fragment.ofQuery, hlower]
    rfl
  obtain ⟨hmeans, hreads⟩ :=
    clause_means_filter (.ofList [("a", .numeric), ("b", .string)]) hplain
  obtain ⟨e, he⟩ := hreads _ 32 _ ⟨_, {}⟩ _ rfl hparse hne hfragment
  refine ⟨hplain, _, _, e, hparse, hfragment, rfl, he, ?_⟩
  intro predicates
  rw [(hmeans f [] _ hne hlower).2 e he _ predicates (agrees_place _ _ _ _)]
  exact hvalue predicates

end UrlFilter.Sql
