import UrlFilter.Proofs.Sql.Rendering

/-! What a lowering leaves behind, whether it succeeds or fails. It binds the predicates of a tree
from left to right up to the first that does not fit the schema, and of the condition it writes what
stands before the comparison of this one. Lowering one thing behind another is carried by
`Leaves.append`; `leaves_addTerms` is the whole of it for a tree. -/
namespace UrlFilter.Sql

/-! ## Predicates up to the first that does not fit -/

/-- The predicates before the first that does not fit the schema. -/
def fitting (fields : FilterFields) : List Predicate → List Predicate
  | [] => []
  | p :: ps =>
    match Binding.ofPredicate fields p with
    | .error _ => []
    | .ok _ => p :: fitting fields ps

/-- What is wrong with the first predicate that does not fit the schema. -/
def firstFault? (fields : FilterFields) : List Predicate → Option LoweringError
  | [] => none
  | p :: ps =>
    match Binding.ofPredicate fields p with
    | .error e => some e
    | .ok _ => firstFault? fields ps

variable {fields : FilterFields} {p : Predicate} {ps qs : List Predicate} {e : LoweringError}

theorem firstFault?_append :
    firstFault? fields (ps ++ qs) = (firstFault? fields ps).or (firstFault? fields qs) := by
  induction ps with
  | nil => rfl
  | cons p ps ih =>
    rw [List.cons_append, firstFault?, firstFault?]
    cases Binding.ofPredicate fields p with
    | error e => rfl
    | ok b => exact ih

theorem fitting_append :
    fitting fields (ps ++ qs) =
      if firstFault? fields ps = none then ps ++ fitting fields qs else fitting fields ps := by
  induction ps with
  | nil => rfl
  | cons p ps ih =>
    rw [List.cons_append, fitting, fitting, firstFault?]
    cases Binding.ofPredicate fields p with
    | error e => rfl
    | ok b =>
      dsimp only
      rw [ih]
      split
      · rfl
      · rfl

/-- Either all predicates fit, or one at fault stands behind those that do. -/
theorem fitting_cases (fields : FilterFields) (ps : List Predicate) :
    (firstFault? fields ps = none ∧ fitting fields ps = ps) ∨
      ∃ p rest e, ps = fitting fields ps ++ p :: rest ∧
        Binding.ofPredicate fields p = .error e ∧ firstFault? fields ps = some e := by
  induction ps with
  | nil => exact .inl ⟨rfl, rfl⟩
  | cons p ps ih =>
    rw [fitting, firstFault?]
    cases hp : Binding.ofPredicate fields p with
    | error e => exact .inr ⟨p, ps, e, rfl, hp, rfl⟩
    | ok b =>
      rcases ih with ⟨hnone, hfitting⟩ | ⟨p', rest, e, hps, hp', hsome⟩
      · exact .inl ⟨hnone, congrArg _ hfitting⟩
      · exact .inr ⟨p', rest, e, congrArg _ hps, hp', hsome⟩

theorem fitting_of_none (h : firstFault? fields ps = none) : fitting fields ps = ps := by
  rcases fitting_cases fields ps with ⟨-, hfitting⟩ | ⟨_, _, _, -, -, hsome⟩
  · exact hfitting
  · rw [h] at hsome
    cases hsome

theorem length_fitting_lt (h : firstFault? fields ps = some e) :
    (fitting fields ps).length < ps.length := by
  rcases fitting_cases fields ps with ⟨hnone, -⟩ | ⟨p, rest, _, hps, -, -⟩
  · rw [h] at hnone
    cases hnone
  · have hlength := congrArg List.length hps
    rw [List.length_append, List.length_cons] at hlength
    omega

theorem exists_areBound_fitting (fields : FilterFields) (ps : List Predicate) :
    ∃ bs, AreBound fields (fitting fields ps) bs := by
  induction ps with
  | nil => exact ⟨[], .nil⟩
  | cons p ps ih =>
    obtain ⟨bs, hbs⟩ := ih
    rw [fitting]
    cases hp : Binding.ofPredicate fields p with
    | error e => exact ⟨[], .nil⟩
    | ok b => exact ⟨b :: bs, .cons hp hbs⟩

/-! ## What lowering leaves behind -/

/-- Whether lowering predicates from a draft leaves the outcome `r`: of the parts of their condition
it writes those before the comparison of the first predicate that does not fit, and it binds the
predicates before this one. -/
def Leaves (fields : FilterFields) (parts : List Piece) (ps : List Predicate) (d : Draft)
    (r : Lowered) : Prop :=
  ∃ bs, AreBound fields (fitting fields ps) bs ∧
    r = ⟨d.extend (Piece.sqlOf (Piece.before
      (d.params.length + (fitting fields ps).length + 1) parts)) (bs.map Binding.param),
      firstFault? fields ps⟩

variable {name : Naming} {parts parts' : List Piece} {d : Draft} {r r' : Lowered}

theorem leaves_nil (d : Draft) : Leaves fields [] [] d ⟨d, none⟩ :=
  ⟨[], .nil, by simp [Draft.extend, Piece.before, Piece.sqlOf, firstFault?]⟩

theorem leaves_write (part : Piece) (d : Draft) (h : Piece.places [part] = []) :
    Leaves fields [part] [] d ⟨d.write part.sql, none⟩ := by
  refine ⟨[], .nil, ?_⟩
  rw [Piece.before_of_not_mem (by rw [h]; exact List.not_mem_nil)]
  simp [Draft.extend, Draft.write, Piece.sqlOf, firstFault?]

theorem leaves_predicate {n : Nat} (hn : d.params.length = n)
    (hname : AreNamed fields name n (fitting fields [p])) :
    Leaves fields [.test ⟨(name (n + 1) p).1, (name (n + 1) p).2, n + 1⟩] [p] d
      (match Binding.ofPredicate fields p with
        | .error e => ⟨d, some e⟩
        | .ok b => ⟨d.bind b, none⟩) := by
  subst hn
  unfold Leaves
  rw [fitting, firstFault?] at *
  cases hb : Binding.ofPredicate fields p with
  | error e =>
    refine ⟨[], .nil, ?_⟩
    simp [Draft.extend, Piece.before, Piece.isAt, Piece.sqlOf]
  | ok b =>
    rw [hb] at hname
    obtain ⟨⟨hcolumn, hop⟩, -⟩ := hname
    obtain ⟨type, hfind, hsql, -⟩ := ofPredicate_eq_ok_iff.mp hb
    have hbop := (ofPredicate_eq_ok (d.params.length + 1) hb).2
    have hc : b.column = (name (d.params.length + 1) p).1 := by
      unfold FilterFields.column? at hcolumn
      rw [hfind] at hcolumn
      exact Option.some.inj hcolumn
    refine ⟨[b], .cons hb .nil, ?_⟩
    rw [Piece.before_of_not_mem]
    · simp [Draft.extend, Draft.bind, Piece.sqlOf, Piece.sql, Comparison.sql, hc, hop, hbop,
        firstFault?, String.append_assoc]
    · show d.params.length + 1 + 1 ∉ [d.params.length + 1]
      simp

/-- What is lowered behind something else is numbered on from it, and is not lowered at all if that
fails. -/
theorem Leaves.append (h : Leaves fields parts ps d r)
    (hplaces : Piece.places parts = List.range' (d.params.length + 1) ps.length)
    (hnext : r.error = none → Leaves fields parts' qs r.draft r')
    (hfailed : r.error ≠ none → r' = r) :
    Leaves fields (parts ++ parts') (ps ++ qs) d r' := by
  obtain ⟨bs, hbs, rfl⟩ := h
  rcases fitting_cases fields ps with ⟨hnone, hfitting⟩ | ⟨_, _, e, -, -, hsome⟩
  · obtain ⟨cs, hcs, rfl⟩ := hnext hnone
    rw [hfitting] at hbs
    refine ⟨bs ++ cs, ?_, ?_⟩
    · rw [fitting_append, if_pos hnone]
      exact List.rel_append hbs hcs
    · have hlength : (d.extend (Piece.sqlOf (Piece.before
          (d.params.length + (fitting fields ps).length + 1) parts))
          (bs.map Binding.param)).params.length = d.params.length + ps.length := by
        simp [Draft.extend, hbs.length_eq]
      -- no comparison of the first parts stands at a later place
      have hbehind (k : Nat) : d.params.length + ps.length + k + 1 ∉ Piece.places parts := by
        rw [hplaces, List.mem_range'_1]
        omega
      rw [fitting_append, if_pos hnone, firstFault?_append, hnone, Option.none_or]
      dsimp only
      rw [hlength, hfitting, List.length_append, ← Nat.add_assoc,
        Piece.before_append_of_not_mem parts' (hbehind _), Piece.before_of_not_mem (hbehind 0)]
      simp [Draft.extend, String.append_assoc]
  · have hlt := length_fitting_lt hsome
    rw [hfailed (by rw [hsome]; exact nofun)]
    refine ⟨bs, ?_, ?_⟩
    · rw [fitting_append, if_neg (by rw [hsome]; exact nofun)]
      exact hbs
    · rw [fitting_append, if_neg (by rw [hsome]; exact nofun), firstFault?_append, hsome,
        Option.some_or, Piece.before_append_of_mem]
      rw [hplaces, List.mem_range'_1]
      omega

/-- The outcome of lowering something else behind `r`, unless `r` failed. -/
def Lowered.andThen (r : Lowered) (next : Draft → Lowered) : Lowered :=
  match r with
  | ⟨d, none⟩ => next d
  | failed => failed

theorem Lowered.error_andThen (r : Lowered) (next : Draft → Lowered) :
    (r.andThen next).error = r.error.or (next r.draft).error := by
  obtain ⟨d, error⟩ := r
  cases error with
  | none => rfl
  | some e => rfl

theorem Leaves.andThen {next : Draft → Lowered} (h : Leaves fields parts ps d r)
    (hplaces : Piece.places parts = List.range' (d.params.length + 1) ps.length)
    (hnext : ∀ d', r = ⟨d', none⟩ → Leaves fields parts' qs d' (next d')) :
    Leaves fields (parts ++ parts') (ps ++ qs) d (r.andThen next) := by
  obtain ⟨d', error⟩ := r
  refine h.append hplaces ?_ ?_
  · rintro rfl
    exact hnext d' rfl
  · intro herror
    cases error with
    | none => exact absurd rfl herror
    | some e => rfl

theorem Leaves.length_params (h : Leaves fields parts ps d r) (hnone : r.error = none) :
    r.draft.params.length = d.params.length + ps.length := by
  obtain ⟨bs, hbs, rfl⟩ := h
  rw [fitting_of_none hnone] at hbs
  simp [Draft.extend, hbs.length_eq]

theorem areNamed_left {n : Nat} (h : AreNamed fields name n (fitting fields (ps ++ qs))) :
    AreNamed fields name n (fitting fields ps) := by
  rw [fitting_append] at h
  split at h
  · rename_i hnone
    rw [fitting_of_none hnone]
    exact (areNamed_append.mp h).1
  · exact h

theorem areNamed_right {n : Nat} (hnone : firstFault? fields ps = none)
    (h : AreNamed fields name n (fitting fields (ps ++ qs))) :
    AreNamed fields name (n + ps.length) (fitting fields qs) := by
  rw [fitting_append, if_pos hnone] at h
  exact (areNamed_append.mp h).2

mutual

theorem leaves_addTerm (d : Draft) (t : Term)
    (hname : AreNamed fields name d.params.length (fitting fields t.predicates)) :
    Leaves fields (termPieces name d.params.length t) t.predicates d
      (Draft.addTerm fields d t) := by
  cases t with
  | predicate link p =>
    rw [termPieces, Draft.addTerm]
    exact leaves_predicate rfl hname
  | group link terms =>
    have hopen : Leaves fields [.opening] [] d ⟨d.write "(", none⟩ := leaves_write _ d rfl
    have hterms := hopen.append rfl (fun _ => leaves_addTerms true (d.write "(") terms hname)
      (absurd rfl)
    have hplaces : Piece.places ([.opening] ++ termsPieces name true d.params.length terms) =
        List.range' (d.params.length + 1) (Term.predicatesOf terms).length := by
      rw [Piece.places_append, places_termsPieces]
      rfl
    have hgroup := hterms.andThen hplaces fun d' _ => leaves_write .closing d' rfl
    rw [List.nil_append, List.append_nil] at hgroup
    rw [termPieces, Draft.addTerm]
    exact hgroup

theorem leaves_addTerms (first : Bool) (d : Draft) (ts : List Term)
    (hname : AreNamed fields name d.params.length (fitting fields (Term.predicatesOf ts))) :
    Leaves fields (termsPieces name first d.params.length ts) (Term.predicatesOf ts) d
      (Draft.addTerms fields first d ts) := by
  cases ts with
  | nil => exact leaves_nil d
  | cons t rest =>
    have hjoin : Leaves fields (if first then [] else [.joining t.link]) [] d
        ⟨if first then d else d.write (joiner t.link), none⟩ := by
      cases first with
      | true => exact leaves_nil d
      | false => exact leaves_write _ d rfl
    have hjoinPlaces : Piece.places (if first then [] else [.joining t.link]) = [] := by
      cases first with
      | true => rfl
      | false => rfl
    have hparams : (if first then d else d.write (joiner t.link)).params = d.params := by
      cases first with
      | true => rfl
      | false => rfl
    rw [Term.predicatesOf] at hname ⊢
    have hterm := leaves_addTerm (if first then d else d.write (joiner t.link)) t
      (by rw [hparams]; exact areNamed_left hname)
    rw [hparams] at hterm
    have hfirst := hjoin.append hjoinPlaces (fun _ => hterm) (absurd rfl)
    rw [List.nil_append] at hfirst
    have hplaces : Piece.places ((if first then [] else [.joining t.link]) ++
        termPieces name d.params.length t) =
          List.range' (d.params.length + 1) t.predicates.length := by
      rw [Piece.places_append, hjoinPlaces, places_termPieces, List.nil_append]
    rw [termsPieces, Draft.addTerms]
    refine hfirst.andThen hplaces fun d' hd => ?_
    -- the terms behind the first are numbered on from its last predicate
    rw [hd] at hfirst
    have hlength := hfirst.length_params rfl
    have hnone : firstFault? fields t.predicates = none := by
      obtain ⟨_, -, heq⟩ := hfirst
      exact (congrArg Lowered.error heq).symm
    have hrest := leaves_addTerms false d' rest
      (by rw [hlength]; exact areNamed_right hnone hname)
    rw [hlength] at hrest
    exact hrest

end

/-- Whether a filter is lowered, and why it is not, does not depend on the draft. -/
theorem error_addFilter (fields : FilterFields) (d : Draft) (f : Filter) :
    (Draft.addFilter fields d f).error = firstFault? fields f.predicates := by
  obtain ⟨bs, hbs⟩ := exists_areBound_fitting fields f.predicates
  obtain ⟨_, -, heq⟩ := leaves_addTerms true d f (areNamed_schemaNaming hbs)
  exact congrArg Lowered.error heq

end UrlFilter.Sql
