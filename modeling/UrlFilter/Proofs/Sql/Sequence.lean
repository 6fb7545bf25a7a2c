import UrlFilter.Proofs.Sql.Lowering
import UrlFilter.Proofs.Sql.OrderBy

/-! Drafts that are used again and again. Filters against different schemas, orders and plain text
go into one draft one after another, and where a filter fails, the next step goes on from what it
left. Nothing is ever taken back, and the placeholders of each filter are numbered on from the
parameters that stand before it: `draft_stays_numbered`. -/
namespace UrlFilter.Sql

/-- One use of a draft. -/
inductive Step where
  | filter (fields : FilterFields) (f : Filter)
  | order (fields : SortFields) (keys : List SortKey)
  | text (s : String)

/-- What a step makes of a draft. -/
def Step.run (d : Draft) : Step → Lowered
  | filter fields f => d.addFilter fields f
  | order fields keys => ⟨{ d with clause := addOrder fields d.clause keys }, none⟩
  | text s => ⟨d.write s, none⟩

/-- The draft behind steps, each of which goes on from what the one before it left. -/
def Draft.afterSteps (d : Draft) (steps : List Step) : Draft :=
  steps.foldl (fun d step => (step.run d).draft) d

/-- What lowering a filter makes of a draft, where the predicates `valid` are those before the first
that does not fit the schema. -/
structure LowersTo (fields : FilterFields) (d : Draft) (f : Filter) (valid : List Predicate)
    (r : Lowered) : Prop where
  /-- Each of these predicates binds one parameter, and no other does. -/
  params : ∃ bs, AreBound fields valid bs ∧ r.draft.params = d.params ++ bs.map Binding.param
  /-- The placeholders that are written count on from the parameters before to those behind. -/
  placeholders : ∀ name, AreNamed fields name d.params.length valid →
    ∃ parts, parts <+: termsPieces name true d.params.length f ∧
      r.draft.clause = d.clause ++ Piece.sqlOf parts ∧
      Piece.places parts =
        List.range' (d.params.length + 1) (r.draft.params.length - d.params.length)
  success : r.error = none → valid = f.predicates ∧
    ∀ name, AreNamed fields name d.params.length valid →
      r.draft.clause = d.clause ++ Piece.sqlOf (termsPieces name true d.params.length f)
  /-- Whatever the predicates from the faulty one on are called, what is written is what stands
  before the comparison of this one. -/
  failure : ∀ e, r.error = some e → ∃ p rest, f.predicates = valid ++ p :: rest ∧
    Binding.ofPredicate fields p = .error e ∧
    ∀ name, AreNamed fields name d.params.length valid →
      r.draft.clause = d.clause ++ Piece.sqlOf
        (Piece.before (d.params.length + valid.length + 1)
          (termsPieces name true d.params.length f))

variable {fields : FilterFields} {d : Draft} {f : Filter}

/-! ## One filter -/

theorem takeWhile_range' {start k m : Nat} (h : k ≤ m) :
    (List.range' start m).takeWhile (· != start + k) = List.range' start k := by
  have hsplit : List.range' start m = List.range' start k ++ List.range' (start + k) (m - k) := by
    rw [show m = k + (m - k) by omega, ← List.range'_append, Nat.one_mul, Nat.add_sub_cancel_left]
  have hfirst : ∀ place ∈ List.range' start k, (place != start + k) = true := by
    intro place hplace
    rw [List.mem_range'_1] at hplace
    rw [bne_iff_ne]
    omega
  rw [hsplit, List.takeWhile_append_of_pos hfirst]
  cases m - k with
  | zero => simp
  | succ n => simp [List.range'_succ]

/-- The placeholders before a place are those before it in the whole. -/
theorem places_before_termsPieces (name : Naming) (n : Nat) {k : Nat} {ts : List Term}
    (h : k ≤ (Term.predicatesOf ts).length) :
    Piece.places (Piece.before (n + k + 1) (termsPieces name true n ts)) =
      List.range' (n + 1) k := by
  rw [Piece.places_before, places_termsPieces, ← takeWhile_range' h, Nat.add_right_comm]

theorem length_fitting_le (ps : List Predicate) : (fitting fields ps).length ≤ ps.length := by
  cases hf : firstFault? fields ps with
  | none => exact Nat.le_of_eq (congrArg List.length (fitting_of_none hf))
  | some e => exact Nat.le_of_lt (length_fitting_lt hf)

theorem lowersTo_addFilter (fields : FilterFields) (d : Draft) (f : Filter) :
    LowersTo fields d f (fitting fields f.predicates) (d.addFilter fields f) := by
  have hleaves {name : Naming}
      (hname : AreNamed fields name d.params.length (fitting fields f.predicates)) :
      Leaves fields (termsPieces name true d.params.length f) f.predicates d
        (d.addFilter fields f) :=
    leaves_addTerms true d f hname
  have hclause {name : Naming}
      (hname : AreNamed fields name d.params.length (fitting fields f.predicates)) :
      (d.addFilter fields f).draft.clause = d.clause ++ Piece.sqlOf
        (Piece.before (d.params.length + (fitting fields f.predicates).length + 1)
          (termsPieces name true d.params.length f)) := by
    obtain ⟨_, -, heq⟩ := hleaves hname
    rw [heq]
    rfl
  obtain ⟨bs, hbs⟩ := exists_areBound_fitting fields f.predicates
  obtain ⟨cs, hcs, heq⟩ := hleaves (areNamed_schemaNaming hbs)
  have hparams : (d.addFilter fields f).draft.params = d.params ++ cs.map Binding.param := by
    rw [heq]
    rfl
  refine ⟨⟨cs, hcs, hparams⟩, ?_, ?_, ?_⟩
  · intro name hname
    refine ⟨_, List.takeWhile_prefix _, hclause hname, ?_⟩
    show Piece.places (Piece.before _ _) = _
    rw [places_before_termsPieces _ _ (length_fitting_le f.predicates), hparams,
      List.length_append, List.length_map, ← hcs.length_eq, Nat.add_sub_cancel_left]
  · intro hnone
    rw [error_addFilter] at hnone
    have hall := fitting_of_none hnone
    refine ⟨hall, fun name hname => ?_⟩
    rw [hclause hname, Piece.before_of_not_mem]
    rw [places_termsPieces, List.mem_range'_1, hall]
    show ¬ (_ ∧ d.params.length + (Term.predicatesOf f).length + 1 < _)
    omega
  · intro e hsome
    rw [error_addFilter] at hsome
    rcases fitting_cases fields f.predicates with ⟨hnone, -⟩ | ⟨p, rest, e', hsplit, hp, he⟩
    · rw [hnone] at hsome
      cases hsome
    · obtain rfl : e' = e := Option.some.inj (he.symm.trans hsome)
      exact ⟨p, rest, hsplit, hp, fun name hname => hclause hname⟩

/-! ## Many steps -/

/-- A step only adds at the end. -/
theorem exists_extend_of_run (d : Draft) (step : Step) :
    ∃ text params, (step.run d).draft = d.extend text params := by
  cases step with
  | filter fields f =>
    obtain ⟨bs, hbs⟩ := exists_areBound_fitting fields f.predicates
    obtain ⟨cs, -, heq⟩ :=
      leaves_addTerms true d f (areNamed_schemaNaming (n := d.params.length) hbs)
    exact ⟨_, _, congrArg Lowered.draft heq⟩
  | order fields keys =>
    show ∃ text params, (⟨addOrder fields d.clause keys, d.params⟩ : Draft) = d.extend text params
    rw [addOrder_eq]
    split
    · exact ⟨"", [], by simp [Draft.extend]⟩
    · exact ⟨gapAfter d.clause ++ "ORDER BY " ++ ", ".intercalate (orderEntries fields keys), [],
        by simp [Draft.extend, String.append_assoc]⟩
  | text s => exact ⟨s, [], by simp [Step.run, Draft.extend, Draft.write]⟩

theorem exists_extend_of_afterSteps (d : Draft) (steps : List Step) :
    ∃ text params, d.afterSteps steps = d.extend text params := by
  induction steps generalizing d with
  | nil => exact ⟨"", [], by simp [Draft.afterSteps, Draft.extend]⟩
  | cons step rest ih =>
    obtain ⟨text, params, hstep⟩ := exists_extend_of_run d step
    obtain ⟨text', params', hrest⟩ := ih (step.run d).draft
    refine ⟨text ++ text', params ++ params', ?_⟩
    show (step.run d).draft.afterSteps rest = _
    rw [hrest, hstep]
    simp [Draft.extend, String.append_assoc]

/-- Whatever is done with a draft, clause and parameters only grow at their ends, and each filter
that is lowered into it, with success or without, binds the predicates before the first that does
not fit and numbers their placeholders on from the parameters it finds. A filter that fails leaves
the part of its condition before the faulty comparison, whatever this one and those behind it would
have been. -/
theorem draft_stays_numbered (d : Draft) :
    (∀ before after : List Step, ∃ text params,
      d.afterSteps (before ++ after) = (d.afterSteps before).extend text params) ∧
    ∀ (before : List Step) (fields : FilterFields) (f : Filter), ∃ valid,
      LowersTo fields (d.afterSteps before) f valid
        ((Step.filter fields f).run (d.afterSteps before)) := by
  constructor
  · intro before after
    rw [Draft.afterSteps, List.foldl_append]
    exact exists_extend_of_afterSteps (d.afterSteps before) after
  · intro before fields f
    exact ⟨_, lowersTo_addFilter fields (d.afterSteps before) f⟩

/-- A filter that fails in a group leaves the group open, and the next one is numbered on. -/
theorem draft_stays_numbered_failed :
    Draft.afterSteps {} [.filter (.ofList [("a", .numeric), ("b", .bool)])
        [.predicate .start ⟨.equal, "a", "1"⟩,
          .group .or [.predicate .start ⟨.equal, "b", "maybe"⟩]], .text "; "] =
      ⟨"a = $1 OR (; ", [.text "1"]⟩ ∧
    ∃ valid, LowersTo (.ofList [("b", .bool)]) ⟨"a = $1 OR (; ", [.text "1"]⟩
      [.predicate .start ⟨.equal, "b", "true"⟩] valid
      ⟨⟨"a = $1 OR (; b = $2", [.text "1", .bool true]⟩, none⟩ := by
  have hsteps : Draft.afterSteps {} [.filter (.ofList [("a", .numeric), ("b", .bool)])
      [.predicate .start ⟨.equal, "a", "1"⟩,
        .group .or [.predicate .start ⟨.equal, "b", "maybe"⟩]], .text "; "] =
      ⟨"a = $1 OR (; ", [.text "1"]⟩ := by
    decide +kernel
  have hrun : (Step.filter (.ofList [("b", .bool)]) [.predicate .start ⟨.equal, "b", "true"⟩]).run
      ⟨"a = $1 OR (; ", [.text "1"]⟩ =
      ⟨⟨"a = $1 OR (; b = $2", [.text "1", .bool true]⟩, none⟩ := by
    decide +kernel
  obtain ⟨valid, h⟩ := (draft_stays_numbered {}).2 _ (.ofList [("b", .bool)])
    [.predicate .start ⟨.equal, "b", "true"⟩]
  rw [hsteps, hrun] at h
  exact ⟨hsteps, valid, h⟩

end UrlFilter.Sql
