import UrlFilter.Proofs.Filter.Meaning

/-! Terms combined strictly from left to right, as if AND and OR bound alike, beside the meaning of
a filter, in which AND binds tighter. The two readings are one if in no list a term that is joined
by AND stands behind one that is joined by OR, and else some valuation tells them apart. The main
statement is `value_eq_valueInOrder_iff`. -/
namespace UrlFilter

/-- A value with one more value joined to it. -/
def Connective.combine : Connective → Bool → Bool → Bool
  | .or, a, b => a || b
  | .and, a, b | .start, a, b => a && b

/-- A value with the values of a list joined to it one after another. -/
def foldInOrder (run : Bool) (values : List (Connective × Bool)) : Bool :=
  values.foldl (fun run next => next.1.combine run next.2) run

/-- Whether a list holds, its values combined from left to right. The joining of the first value
counts for nothing. -/
def holdsInOrder : List (Connective × Bool) → Bool
  | [] => true
  | (_, v) :: values => foldInOrder v values

/-- Whether AND stands behind an OR, START being as good as AND. -/
def Connective.areMixed (links : List Connective) : Bool :=
  (links.dropWhile (· ≠ .or)).any (· ≠ .or)

namespace Term

mutual

/-- Whether a term holds when `n` predicates stand before it and `judge` says which lists hold. -/
def valueBy (judge : List (Connective × Bool) → Bool) (valuation : Nat → Bool) (n : Nat) :
    Term → Bool
  | predicate _ _ => valuation (n + 1)
  | group _ terms => judge (valuesBy judge valuation n terms)

/-- Which terms of a list hold, with the joining of each. -/
def valuesBy (judge : List (Connective × Bool) → Bool) (valuation : Nat → Bool) (n : Nat) :
    List Term → List (Connective × Bool)
  | [] => []
  | t :: ts =>
    (t.link, valueBy judge valuation n t) ::
      valuesBy judge valuation (n + t.predicates.length) ts

end

mutual

/-- Whether the term has a group with a term joined by AND behind one joined by OR. The joining of
the first term counts for nothing. -/
def mixes : Term → Bool
  | predicate _ _ => false
  | group _ terms => Connective.areMixed (terms.tail.map link) || anyMixes terms

/-- Whether one of the terms has such a group. -/
def anyMixes : List Term → Bool
  | [] => false
  | t :: ts => mixes t || anyMixes ts

end

end Term

namespace Filter

/-- Whether a filter holds when `n` predicates stand before it, the terms of the filter and of each
group combined from left to right. -/
def valueInOrder (valuation : Nat → Bool) (n : Nat) (f : Filter) : Bool :=
  f.isEmpty || holdsInOrder (Term.valuesBy holdsInOrder valuation n f)

/-- Whether in a list, at any level of the filter, a term joined by AND stands behind one joined by
OR. -/
def mixes (f : Filter) : Bool :=
  Connective.areMixed (f.tail.map Term.link) || Term.anyMixes f

end Filter

/-! ## Lists of values -/

@[simp] theorem foldInOrder_cons (run : Bool) (x : Connective × Bool)
    (values : List (Connective × Bool)) :
    foldInOrder run (x :: values) = foldInOrder (x.1.combine run x.2) values :=
  rfl

theorem combine_of_ne_or {link : Connective} (h : link ≠ .or) (a b : Bool) :
    link.combine a b = (a && b) := by
  cases link with
  | or => exact absurd rfl h
  | and | start => rfl

/-- Behind a value that its joining makes count for nothing, a value stands as if it were the
first. -/
theorem holdsFrom_neutral (link : Connective) (v : Bool) (values : List (Connective × Bool)) :
    holdsFrom (decide (link ≠ .or)) ((link, v) :: values) = anyRunHolds ((link, v) :: values) := by
  rw [anyRunHolds_cons]
  cases link <;> simp [holdsFrom]

theorem foldInOrder_neutral (link : Connective) (v : Bool) (values : List (Connective × Bool)) :
    foldInOrder (decide (link ≠ .or)) ((link, v) :: values) =
      holdsInOrder ((link, v) :: values) := by
  rw [foldInOrder_cons]
  cases link <;> simp [holdsInOrder, Connective.combine]

/-- Where OR joins all values, a value that holds before them may as well stand alone. -/
theorem holdsFrom_or {values : List (Connective × Bool)} (h : ∀ x ∈ values, x.1 = .or)
    (a b : Bool) : holdsFrom (a || b) values = (a || holdsFrom b values) := by
  cases values with
  | nil => rfl
  | cons x values =>
    obtain ⟨link, v⟩ := x
    obtain rfl : link = .or := h _ List.mem_cons_self
    simp [holdsFrom, Bool.or_assoc]

/-- With no AND behind an OR, precedence does not matter. -/
theorem holdsFrom_eq_foldInOrder {values : List (Connective × Bool)}
    (h : Connective.areMixed (values.map Prod.fst) = false) (run : Bool) :
    holdsFrom run values = foldInOrder run values := by
  induction values generalizing run with
  | nil => rfl
  | cons x values ih =>
    obtain ⟨link, v⟩ := x
    by_cases hor : link = .or
    · subst hor
      have hall : ∀ x ∈ values, x.1 = .or := by simpa [Connective.areMixed] using h
      have hrest : Connective.areMixed (values.map Prod.fst) = false := by
        refine List.any_eq_false.mpr fun link hlink => ?_
        obtain ⟨x, hx, rfl⟩ := List.mem_map.mp ((List.dropWhile_sublist _).mem hlink)
        simp [hall x hx]
      rw [holdsFrom, ← holdsFrom_or hall, ih hrest]
      rfl
    · have hrest : Connective.areMixed (values.map Prod.fst) = false := by
        simpa [Connective.areMixed, hor] using h
      rw [holdsFrom_of_ne_or hor, ih hrest, foldInOrder_cons, combine_of_ne_or hor]

/-- Values that fail do not make up for one another. -/
theorem foldInOrder_false {values : List (Connective × Bool)} (h : ∀ x ∈ values, x.2 = false) :
    foldInOrder false values = false := by
  induction values with
  | nil => rfl
  | cons x values ih =>
    obtain ⟨hx, hvalues⟩ := List.forall_mem_cons.mp h
    rw [foldInOrder_cons, hx, show x.1.combine false false = false by cases x.1 <;> rfl]
    exact ih hvalues

/-- A value that fails and is not joined by OR spoils all that stands before it. -/
theorem foldInOrder_eq_false {values : List (Connective × Bool)} (h : ∀ x ∈ values, x.2 = false)
    (hmixed : ∃ x ∈ values, x.1 ≠ .or) (run : Bool) : foldInOrder run values = false := by
  induction values generalizing run with
  | nil => simp at hmixed
  | cons x values ih =>
    obtain ⟨hx, hvalues⟩ := List.forall_mem_cons.mp h
    rw [foldInOrder_cons, hx]
    by_cases hor : x.1 = .or
    · obtain ⟨y, hy, hne⟩ := hmixed
      rcases List.mem_cons.mp hy with rfl | hy
      · exact absurd hor hne
      · exact ih hvalues ⟨y, hy, hne⟩ _
    · rw [combine_of_ne_or hor, Bool.and_false]
      exact foldInOrder_false hvalues

/-- Whether a list of equal values comes to this value. -/
def IsIdempotent (judge : List (Connective × Bool) → Bool) : Prop :=
  ∀ (b : Bool) (x : Connective × Bool) (values : List (Connective × Bool)),
    (∀ y ∈ x :: values, y.2 = b) → judge (x :: values) = b

theorem isIdempotent_holdsInOrder : IsIdempotent holdsInOrder := by
  intro b x values h
  obtain ⟨hx, hvalues⟩ := List.forall_mem_cons.mp h
  show foldInOrder x.2 values = b
  rw [hx]
  clear h hx
  induction values with
  | nil => rfl
  | cons y values ih =>
    obtain ⟨hy, hvalues⟩ := List.forall_mem_cons.mp hvalues
    rw [foldInOrder_cons, hy, show y.1.combine b b = b by cases y.1 <;> simp [Connective.combine]]
    exact ih hvalues

theorem isIdempotent_anyRunHolds : IsIdempotent anyRunHolds := by
  intro b x values h
  obtain ⟨hx, hvalues⟩ := List.forall_mem_cons.mp h
  rw [anyRunHolds_cons x.1 x.2 values, hx]
  clear h hx
  induction values with
  | nil => rfl
  | cons y values ih =>
    obtain ⟨hy, hvalues⟩ := List.forall_mem_cons.mp hvalues
    by_cases hor : y.1 = .or
    · rw [show y = (.or, b) from Prod.ext hor hy, holdsFrom, ih hvalues, Bool.or_self]
    · rw [show y = (y.1, b) from Prod.ext rfl hy, holdsFrom_of_ne_or hor, Bool.and_self]
      exact ih hvalues

/-! ## Values of terms -/

namespace Term

variable {judge : List (Connective × Bool) → Bool} {v w : Nat → Bool} {n : Nat} {t : Term}
  {ts : List Term}

mutual

theorem value_eq_valueBy (v : Nat → Bool) (n : Nat) (t : Term) :
    t.value v n = t.valueBy anyRunHolds v n := by
  cases t with
  | predicate link test => rfl
  | group link terms => rw [value, valueBy, values_eq_valuesBy]

theorem values_eq_valuesBy (v : Nat → Bool) (n : Nat) (ts : List Term) :
    values v n ts = valuesBy anyRunHolds v n ts := by
  cases ts with
  | nil => rfl
  | cons t rest => rw [values, valuesBy, value_eq_valueBy, values_eq_valuesBy]

end

theorem map_fst_valuesBy (judge : List (Connective × Bool) → Bool) (v : Nat → Bool) (n : Nat)
    (ts : List Term) : (valuesBy judge v n ts).map Prod.fst = ts.map link := by
  induction ts generalizing n with
  | nil => rfl
  | cons t rest ih => rw [valuesBy, List.map_cons, ih, List.map_cons]

mutual

/-- The value of a term hangs on its own predicates only. -/
theorem valueBy_congr (n : Nat) (t : Term)
    (h : ∀ i, n < i → i ≤ n + t.predicates.length → v i = w i) :
    t.valueBy judge v n = t.valueBy judge w n := by
  cases t with
  | predicate link test => exact h (n + 1) (Nat.lt_succ_self n) (Nat.le_refl _)
  | group link terms => rw [valueBy, valueBy, valuesBy_congr n terms h]

theorem valuesBy_congr (n : Nat) (ts : List Term)
    (h : ∀ i, n < i → i ≤ n + (predicatesOf ts).length → v i = w i) :
    valuesBy judge v n ts = valuesBy judge w n ts := by
  cases ts with
  | nil => rfl
  | cons t rest =>
    rw [predicatesOf, List.length_append] at h
    have hfirst : t.valueBy judge v n = t.valueBy judge w n :=
      valueBy_congr n t fun i hi hle => h i hi (by omega)
    have hrest : valuesBy judge v (n + t.predicates.length) rest =
        valuesBy judge w (n + t.predicates.length) rest :=
      valuesBy_congr _ rest fun i hi hle => h i (by omega) (by omega)
    rw [valuesBy, valuesBy, hfirst, hrest]

end

mutual

/-- Where all predicates are alike, so are all terms. -/
theorem valueBy_const (hjudge : IsIdempotent judge) (b : Bool) (n : Nat) (t : Term)
    (hfull : t.hasEmptyGroup = false) : t.valueBy judge (fun _ => b) n = b := by
  cases t with
  | predicate link test => rfl
  | group link terms =>
    rw [hasEmptyGroup, Bool.or_eq_false_iff] at hfull
    have hall := valuesBy_const hjudge b n terms hfull.2
    rw [valueBy]
    cases terms with
    | nil => simp at hfull
    | cons t rest => exact hjudge b _ _ hall

theorem valuesBy_const (hjudge : IsIdempotent judge) (b : Bool) (n : Nat) (ts : List Term)
    (hfull : anyHasEmptyGroup ts = false) :
    ∀ x ∈ valuesBy judge (fun _ => b) n ts, x.2 = b := by
  cases ts with
  | nil => simp [valuesBy]
  | cons t rest =>
    rw [anyHasEmptyGroup, Bool.or_eq_false_iff] at hfull
    rw [valuesBy]
    exact List.forall_mem_cons.mpr ⟨valueBy_const hjudge b n t hfull.1,
      valuesBy_const hjudge b _ rest hfull.2⟩

end

/-- A valuation for the first term of a list and another for those behind it make one. -/
def glue (v w : Nat → Bool) (n : Nat) : Nat → Bool :=
  fun i => if i ≤ n then v i else w i

theorem valuesBy_glue (v w : Nat → Bool) (n : Nat) (t : Term) (ts : List Term) :
    valuesBy judge (glue v w (n + t.predicates.length)) n (t :: ts) =
      (t.link, t.valueBy judge v n) :: valuesBy judge w (n + t.predicates.length) ts := by
  have hfirst : t.valueBy judge (glue v w (n + t.predicates.length)) n = t.valueBy judge v n :=
    valueBy_congr n t fun i _ hle => if_pos hle
  have hrest : valuesBy judge (glue v w (n + t.predicates.length)) (n + t.predicates.length) ts =
      valuesBy judge w (n + t.predicates.length) ts :=
    valuesBy_congr _ ts fun i hlt _ => if_neg (by omega)
  rw [valuesBy, hfirst, hrest]

/-! ## Valuations that tell the readings apart -/

/-- Terms can be made to count for nothing behind what stands before them. -/
theorem exists_neutral (n : Nat) (ts : List Term) (hfull : anyHasEmptyGroup ts = false) :
    ∃ v : Nat → Bool, ∀ run, holdsFrom run (valuesBy anyRunHolds v n ts) = run ∧
      foldInOrder run (valuesBy holdsInOrder v n ts) = run := by
  induction ts generalizing n with
  | nil => exact ⟨fun _ => true, fun run => ⟨rfl, rfl⟩⟩
  | cons t rest ih =>
    rw [anyHasEmptyGroup, Bool.or_eq_false_iff] at hfull
    obtain ⟨w, hw⟩ := ih (n + t.predicates.length) hfull.2
    -- a term fails behind OR and holds behind AND
    by_cases hor : t.link = .or
    · refine ⟨glue (fun _ => false) w (n + t.predicates.length), fun run => ?_⟩
      rw [valuesBy_glue, valuesBy_glue, valueBy_const isIdempotent_anyRunHolds false n t hfull.1,
        valueBy_const isIdempotent_holdsInOrder false n t hfull.1, hor, holdsFrom,
        foldInOrder_cons, (hw false).1]
      show _ ∧ foldInOrder (run || false) _ = run
      rw [Bool.or_false]
      exact ⟨rfl, (hw run).2⟩
    · refine ⟨glue (fun _ => true) w (n + t.predicates.length), fun run => ?_⟩
      rw [valuesBy_glue, valuesBy_glue, valueBy_const isIdempotent_anyRunHolds true n t hfull.1,
        valueBy_const isIdempotent_holdsInOrder true n t hfull.1, holdsFrom_of_ne_or hor,
        foldInOrder_cons, combine_of_ne_or hor, Bool.and_true]
      exact hw run

/-- Behind a value that holds, terms of which one is joined by AND behind an OR can be made to
fail, but with precedence the value before them stands. -/
theorem exists_spoiled (n : Nat) (ts : List Term) (hfull : anyHasEmptyGroup ts = false)
    (hmixed : Connective.areMixed (ts.map link) = true) :
    ∃ v : Nat → Bool, holdsFrom true (valuesBy anyRunHolds v n ts) = true ∧
      foldInOrder true (valuesBy holdsInOrder v n ts) = false := by
  induction ts generalizing n with
  | nil => simp [Connective.areMixed] at hmixed
  | cons t rest ih =>
    by_cases hor : t.link = .or
    · -- from the first OR on, every term fails
      refine ⟨fun _ => false, ?_, ?_⟩
      · rw [valuesBy, hor, holdsFrom, Bool.true_or]
      · have hfail := valuesBy_const isIdempotent_holdsInOrder false n (t :: rest) hfull
        refine foldInOrder_eq_false hfail ?_ true
        obtain ⟨u, hu, hand⟩ := List.any_eq_true.mp hmixed
        have hmem := (List.dropWhile_sublist _).mem hu
        rw [← map_fst_valuesBy holdsInOrder (fun _ => false) n] at hmem
        obtain ⟨x, hx, rfl⟩ := List.mem_map.mp hmem
        exact ⟨x, hx, by simpa using hand⟩
    · rw [anyHasEmptyGroup, Bool.or_eq_false_iff] at hfull
      have hrest : Connective.areMixed (rest.map link) = true := by
        simpa [Connective.areMixed, hor] using hmixed
      obtain ⟨w, hholds, hfails⟩ := ih (n + t.predicates.length) hfull.2 hrest
      refine ⟨glue (fun _ => true) w (n + t.predicates.length), ?_⟩
      rw [valuesBy_glue, valuesBy_glue, valueBy_const isIdempotent_anyRunHolds true n t hfull.1,
        valueBy_const isIdempotent_holdsInOrder true n t hfull.1, holdsFrom_of_ne_or hor,
        foldInOrder_cons, combine_of_ne_or hor, Bool.and_true]
      exact ⟨hholds, hfails⟩

/-- What the two readings make of a list whose first term has a valuation of its own. -/
theorem judged_glue (v w : Nat → Bool) (n : Nat) (t : Term) (rest : List Term) :
    anyRunHolds (valuesBy anyRunHolds (glue v w (n + t.predicates.length)) n (t :: rest)) =
        holdsFrom (t.valueBy anyRunHolds v n)
          (valuesBy anyRunHolds w (n + t.predicates.length) rest) ∧
      holdsInOrder (valuesBy holdsInOrder (glue v w (n + t.predicates.length)) n (t :: rest)) =
        foldInOrder (t.valueBy holdsInOrder v n)
          (valuesBy holdsInOrder w (n + t.predicates.length) rest) := by
  rw [valuesBy_glue, valuesBy_glue, anyRunHolds_cons]
  exact ⟨rfl, rfl⟩

/-- Whether a valuation tells the two readings of a term apart that `n` predicates stand before. -/
def IsAmbiguous (n : Nat) (t : Term) : Prop :=
  ∃ v : Nat → Bool, t.valueBy anyRunHolds v n ≠ t.valueBy holdsInOrder v n

/-- Whether a valuation tells the two readings of a list apart. -/
def ListIsAmbiguous (n : Nat) (ts : List Term) : Prop :=
  ∃ v : Nat → Bool, anyRunHolds (valuesBy anyRunHolds v n ts) ≠
    holdsInOrder (valuesBy holdsInOrder v n ts)

/-- Whether one of the terms is ambiguous. -/
def AnyIsAmbiguous : Nat → List Term → Prop
  | _, [] => False
  | n, t :: ts => IsAmbiguous n t ∨ AnyIsAmbiguous (n + t.predicates.length) ts

theorem listIsAmbiguous_of_areMixed {n : Nat} {t : Term} {rest : List Term}
    (hfull : anyHasEmptyGroup (t :: rest) = false)
    (h : Connective.areMixed (rest.map link) = true) : ListIsAmbiguous n (t :: rest) := by
  rw [anyHasEmptyGroup, Bool.or_eq_false_iff] at hfull
  obtain ⟨w, hholds, hfails⟩ := exists_spoiled (n + t.predicates.length) rest hfull.2 h
  obtain ⟨hany, horder⟩ := judged_glue (fun _ => true) w n t rest
  refine ⟨glue (fun _ => true) w (n + t.predicates.length), ?_⟩
  rw [hany, horder, valueBy_const isIdempotent_anyRunHolds true n t hfull.1,
    valueBy_const isIdempotent_holdsInOrder true n t hfull.1, hholds, hfails]
  decide

/-- The terms beside an ambiguous one can be made to let it show. -/
theorem listIsAmbiguous_of_any {n : Nat} {t : Term} {rest : List Term}
    (hfull : anyHasEmptyGroup (t :: rest) = false) (h : AnyIsAmbiguous n (t :: rest)) :
    ListIsAmbiguous n (t :: rest) := by
  induction rest generalizing n t with
  | nil =>
    obtain ⟨v, hv⟩ := h.resolve_right id
    refine ⟨v, ?_⟩
    rw [valuesBy, anyRunHolds_cons]
    exact hv
  | cons u rest ih =>
    rw [anyHasEmptyGroup, Bool.or_eq_false_iff] at hfull
    rcases h with ⟨v, hv⟩ | h
    · obtain ⟨w, hw⟩ := exists_neutral (n + t.predicates.length) (u :: rest) hfull.2
      obtain ⟨hany, horder⟩ := judged_glue v w n t (u :: rest)
      refine ⟨glue v w (n + t.predicates.length), ?_⟩
      rw [hany, horder, (hw _).1, (hw _).2]
      exact hv
    · obtain ⟨w, hw⟩ := ih hfull.2 h
      -- before OR the first term must fail, and before AND it must hold
      let b := decide (u.link ≠ .or)
      obtain ⟨hany, horder⟩ := judged_glue (fun _ => b) w n t (u :: rest)
      refine ⟨glue (fun _ => b) w (n + t.predicates.length), ?_⟩
      rw [hany, horder, valueBy_const isIdempotent_anyRunHolds b n t hfull.1,
        valueBy_const isIdempotent_holdsInOrder b n t hfull.1, valuesBy, valuesBy,
        holdsFrom_neutral, foldInOrder_neutral]
      exact hw

mutual

theorem isAmbiguous_of_mixes (n : Nat) (t : Term) (hfull : t.hasEmptyGroup = false)
    (h : t.mixes = true) : IsAmbiguous n t := by
  cases t with
  | predicate link test => simp [mixes] at h
  | group link terms =>
    rw [hasEmptyGroup, Bool.or_eq_false_iff] at hfull
    rw [mixes, Bool.or_eq_true] at h
    cases terms with
    | nil => simp at hfull
    | cons t rest =>
      rcases h with h | h
      · exact listIsAmbiguous_of_areMixed hfull.2 h
      · exact listIsAmbiguous_of_any hfull.2 (anyIsAmbiguous_of_anyMixes n _ hfull.2 h)

theorem anyIsAmbiguous_of_anyMixes (n : Nat) (ts : List Term)
    (hfull : anyHasEmptyGroup ts = false) (h : anyMixes ts = true) : AnyIsAmbiguous n ts := by
  cases ts with
  | nil => simp [anyMixes] at h
  | cons t rest =>
    rw [anyHasEmptyGroup, Bool.or_eq_false_iff] at hfull
    rw [anyMixes, Bool.or_eq_true] at h
    exact h.imp (isAmbiguous_of_mixes n t hfull.1) (anyIsAmbiguous_of_anyMixes _ rest hfull.2)

end

/-! ## Where the readings are one -/

theorem anyRunHolds_eq_holdsInOrder {t : Term} {rest : List Term}
    (h : Connective.areMixed (rest.map link) = false) :
    anyRunHolds (valuesBy judge v n (t :: rest)) =
      holdsInOrder (valuesBy judge v n (t :: rest)) := by
  rw [valuesBy, anyRunHolds_cons]
  exact holdsFrom_eq_foldInOrder (by rw [map_fst_valuesBy, h]) _

mutual

theorem valueBy_eq_of_not_mixes (v : Nat → Bool) (n : Nat) (t : Term)
    (hfull : t.hasEmptyGroup = false) (h : t.mixes = false) :
    t.valueBy anyRunHolds v n = t.valueBy holdsInOrder v n := by
  cases t with
  | predicate link test => rfl
  | group link terms =>
    rw [hasEmptyGroup, Bool.or_eq_false_iff] at hfull
    rw [mixes, Bool.or_eq_false_iff] at h
    rw [valueBy, valueBy, valuesBy_eq_of_not_mixes v n terms hfull.2 h.2]
    cases terms with
    | nil => simp at hfull
    | cons t rest => exact anyRunHolds_eq_holdsInOrder h.1

theorem valuesBy_eq_of_not_mixes (v : Nat → Bool) (n : Nat) (ts : List Term)
    (hfull : anyHasEmptyGroup ts = false) (h : anyMixes ts = false) :
    valuesBy anyRunHolds v n ts = valuesBy holdsInOrder v n ts := by
  cases ts with
  | nil => rfl
  | cons t rest =>
    rw [anyHasEmptyGroup, Bool.or_eq_false_iff] at hfull
    rw [anyMixes, Bool.or_eq_false_iff] at h
    rw [valuesBy, valuesBy, valueBy_eq_of_not_mixes v n t hfull.1 h.1,
      valuesBy_eq_of_not_mixes v _ rest hfull.2 h.2]

end

end Term

/-- The meaning of a filter is its value in order exactly if no AND stands behind an OR in one of
its lists. -/
theorem Filter.value_eq_valueInOrder_iff (n : Nat) {f : Filter} (hne : f ≠ [])
    (hfull : f.hasEmptyGroup = false) :
    (∀ valuation, f.value valuation n = f.valueInOrder valuation n) ↔ f.mixes = false := by
  cases f with
  | nil => exact absurd rfl hne
  | cons t rest =>
    have hvalue (v : Nat → Bool) : Filter.value v n (t :: rest) =
        anyRunHolds (Term.valuesBy anyRunHolds v n (t :: rest)) := by
      rw [Filter.value, Term.values_eq_valuesBy]
      rfl
    constructor
    · intro h
      refine Bool.eq_false_iff.mpr fun hmixes => ?_
      -- read as the terms of a group, the filter would be ambiguous
      have hgroup : (Term.group .start (t :: rest)).mixes = true := hmixes
      obtain ⟨v, hv⟩ := Term.isAmbiguous_of_mixes n (.group .start (t :: rest)) hfull hgroup
      exact hv ((hvalue v).symm.trans (h v))
    · intro h v
      rw [Filter.mixes, Bool.or_eq_false_iff] at h
      rw [hvalue, Term.valuesBy_eq_of_not_mixes v n _ hfull h.2]
      exact Term.anyRunHolds_eq_holdsInOrder h.1

/-- In `a OR b AND c`, the AND stands behind the OR. -/
example (test : Predicate) :
    Filter.mixes [.predicate .start test, .predicate .or test, .predicate .and test] = true := by
  rfl

end UrlFilter
