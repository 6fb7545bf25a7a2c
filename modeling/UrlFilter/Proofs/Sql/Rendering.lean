import UrlFilter.Proofs.Schema.Resolution
import UrlFilter.Proofs.Sql.Placement

/-! Whole conditions, whether or not they can be lowered. A rendering writes every predicate of a
tree under names of someone's choice; which column and operator a schema allows plays no part.
What a lowering writes before it fails is a part of such a rendering, and a rendering behind more
parameters differs in the numbers of its placeholders alone. -/
namespace UrlFilter.Sql

/-- The column and the operator that a rendering gives to a predicate at a place. -/
abbrev Naming := Nat → Predicate → String × Operator

mutual

/-- The parts of the condition of a term behind `n` parameters. -/
def termPieces (name : Naming) (n : Nat) : Term → List Piece
  | .predicate _ p => [.test ⟨(name (n + 1) p).1, (name (n + 1) p).2, n + 1⟩]
  | .group _ terms => .opening :: (termsPieces name true n terms ++ [.closing])

/-- The parts of the conditions of terms behind `n` parameters. -/
def termsPieces (name : Naming) (first : Bool) (n : Nat) : List Term → List Piece
  | [] => []
  | t :: rest =>
    ((if first then [] else [.joining t.link]) ++ termPieces name n t) ++
      termsPieces name false (n + t.predicates.length) rest

end

/-- Whether predicates behind `n` parameters go by their own columns and operators. -/
def AreNamed (fields : FilterFields) (name : Naming) : Nat → List Predicate → Prop
  | _, [] => True
  | n, p :: ps =>
    (fields.column? p.field = some (name (n + 1) p).1 ∧ (name (n + 1) p).2 = p.op) ∧
      AreNamed fields name (n + 1) ps

/-- The naming by a schema, whatever the place. -/
def schemaNaming (fields : FilterFields) : Naming :=
  fun _ p => ((fields.column? p.field).getD "", p.op)

variable {fields : FilterFields} {name : Naming} {ps qs : List Predicate} {n : Nat}

theorem areNamed_append : AreNamed fields name n (ps ++ qs) ↔
    AreNamed fields name n ps ∧ AreNamed fields name (n + ps.length) qs := by
  induction ps generalizing n with
  | nil => exact ⟨fun h => ⟨trivial, h⟩, And.right⟩
  | cons p ps ih =>
    have hn : n + (p :: ps).length = n + 1 + ps.length := by
      rw [List.length_cons]
      omega
    rw [List.cons_append, AreNamed, AreNamed, ih, hn, and_assoc (c := AreNamed _ _ _ qs)]

theorem areNamed_schemaNaming {bs : List Binding} (h : AreBound fields ps bs) :
    AreNamed fields (schemaNaming fields) n ps := by
  induction h generalizing n with
  | nil => trivial
  | @cons p b ps bs hb _ ih =>
    obtain ⟨type, hfind, -⟩ := ofPredicate_eq_ok_iff.mp hb
    have hcolumn : fields.column? p.field = some b.column := by
      rw [FilterFields.column?, hfind]
      rfl
    refine ⟨⟨?_, rfl⟩, ih⟩
    rw [schemaNaming, hcolumn]
    rfl

namespace Piece

/-- Whether the part is the comparison at a place. -/
def isAt (place : Nat) : Piece → Bool
  | test c => c.place == place
  | opening | closing | joining _ => false

/-- The parts before the comparison at a place. -/
def before (place : Nat) (parts : List Piece) : List Piece :=
  parts.takeWhile fun part => !part.isAt place

/-- The places of the comparisons among the parts, from left to right. -/
def places (parts : List Piece) : List Nat :=
  (comparisons parts).map Comparison.place

/-- The same part behind `n` more parameters. -/
def shift (n : Nat) : Piece → Piece
  | test c => test { c with place := c.place + n }
  | opening => opening
  | closing => closing
  | joining link => joining link

@[simp] theorem shift_zero : shift 0 = id := by
  funext part
  cases part with
  | test c => rfl
  | opening | closing | joining _ => rfl

@[simp] theorem places_append (parts parts' : List Piece) :
    places (parts ++ parts') = places parts ++ places parts' := by
  rw [places, comparisons_append, List.map_append]
  rfl

variable {place : Nat} {parts : List Piece}

theorem mem_places_iff : place ∈ places parts ↔ ∃ part ∈ parts, part.isAt place = true := by
  induction parts with
  | nil => simp [places, comparisons]
  | cons part rest ih =>
    have hcons : places (part :: rest) = places [part] ++ places rest := places_append [part] rest
    rw [hcons, List.mem_append, ih, List.exists_mem_cons_iff]
    refine or_congr_left ?_
    cases part with
    | test c =>
      show place ∈ [c.place] ↔ (c.place == place) = true
      rw [List.mem_singleton, beq_iff_eq, eq_comm]
    | opening | closing | joining _ => exact ⟨nofun, nofun⟩

theorem before_append_of_not_mem (parts' : List Piece) (h : place ∉ places parts) :
    before place (parts ++ parts') = parts ++ before place parts' := by
  refine List.takeWhile_append_of_pos fun part hpart => ?_
  rw [Bool.not_eq_true']
  exact Bool.eq_false_iff.mpr fun hat => h (mem_places_iff.mpr ⟨part, hpart, hat⟩)

theorem before_of_not_mem (h : place ∉ places parts) : before place parts = parts := by
  have happend := before_append_of_not_mem [] h
  rw [List.append_nil] at happend
  rw [happend]
  exact List.append_nil parts

theorem before_append_of_mem (parts' : List Piece) (h : place ∈ places parts) :
    before place (parts ++ parts') = before place parts := by
  obtain ⟨part, hpart, hat⟩ := mem_places_iff.mp h
  unfold before
  rw [List.takeWhile_append, if_neg]
  intro hlength
  have hself : parts.takeWhile (fun part => !part.isAt place) = parts :=
    (List.takeWhile_prefix _).eq_of_length hlength
  rw [← hself] at hpart
  have hfalse := List.all_eq_true.mp List.all_takeWhile part hpart
  rw [hat] at hfalse
  cases hfalse

theorem places_before (place : Nat) (parts : List Piece) :
    places (before place parts) = (places parts).takeWhile (· != place) := by
  induction parts with
  | nil => rfl
  | cons part rest ih =>
    unfold before at ih ⊢
    cases part with
    | test c =>
      rw [show places (test c :: rest) = c.place :: places rest from rfl]
      by_cases h : c.place = place
      · rw [List.takeWhile_cons_of_neg (by simp [isAt, h]),
          List.takeWhile_cons_of_neg (by simp [h])]
        rfl
      · rw [List.takeWhile_cons_of_pos (by simp [isAt, h]),
          List.takeWhile_cons_of_pos (by simp [h]), ← ih]
        rfl
    | opening | closing | joining _ => exact ih

end Piece

mutual

/-- The comparisons of a term are numbered on from the parameters before it. -/
theorem places_termPieces (n : Nat) (t : Term) :
    Piece.places (termPieces name n t) = List.range' (n + 1) t.predicates.length := by
  cases t with
  | predicate link p => rfl
  | group link terms =>
    rw [termPieces, Term.predicates, ← places_termsPieces true n terms]
    show Piece.places (termsPieces name true n terms ++ [.closing]) = _
    rw [Piece.places_append]
    exact List.append_nil _

theorem places_termsPieces (first : Bool) (n : Nat) (ts : List Term) :
    Piece.places (termsPieces name first n ts) =
      List.range' (n + 1) (Term.predicatesOf ts).length := by
  cases ts with
  | nil => rfl
  | cons t rest =>
    have hjoin : Piece.places (if first then [] else [.joining t.link]) = [] := by
      cases first with
      | true => rfl
      | false => rfl
    have hn : n + t.predicates.length + 1 = n + 1 + 1 * t.predicates.length := by omega
    rw [termsPieces, Piece.places_append, Piece.places_append, hjoin, List.nil_append,
      places_termPieces, places_termsPieces, Term.predicatesOf, List.length_append, hn,
      List.range'_append]

end

mutual

/-- Behind more parameters a term is written with greater numbers. -/
theorem termPieces_shift {name' : Naming} (k n : Nat) (t : Term)
    (h : ∀ place p, name' (place + k) p = name place p) :
    termPieces name' (n + k) t = (termPieces name n t).map (Piece.shift k) := by
  cases t with
  | predicate link p =>
    have hn : n + k + 1 = n + 1 + k := by omega
    rw [termPieces, hn, h]
    rfl
  | group link terms =>
    rw [termPieces, termsPieces_shift k true n terms h, termPieces]
    simp [Piece.shift]

theorem termsPieces_shift {name' : Naming} (k : Nat) (first : Bool) (n : Nat) (ts : List Term)
    (h : ∀ place p, name' (place + k) p = name place p) :
    termsPieces name' first (n + k) ts = (termsPieces name first n ts).map (Piece.shift k) := by
  cases ts with
  | nil => rfl
  | cons t rest =>
    have hn : n + k + t.predicates.length = n + t.predicates.length + k := by omega
    rw [termsPieces, termPieces_shift k n t h, hn, termsPieces_shift k false _ rest h, termsPieces]
    cases first with
    | true => simp
    | false => simp [Piece.shift]

end

mutual

/-- A condition that can be lowered is the rendering by the columns of its schema. -/
theorem termText_eq_sqlOf (n : Nat) (t : Term) (h : Draft.AllBind fields t.predicates) :
    termText fields n t = Piece.sqlOf (termPieces (schemaNaming fields) n t) := by
  cases t with
  | predicate link p =>
    obtain ⟨b, hb⟩ := h p List.mem_cons_self
    obtain ⟨type, hfind, -⟩ := ofPredicate_eq_ok_iff.mp hb
    simp [termText, termPieces, comparison?, schemaNaming, FilterFields.column?, hfind,
      Piece.sqlOf, Piece.sql]
  | group link terms =>
    rw [termText, termsText_eq_sqlOf true n terms h, termPieces]
    simp [Piece.sqlOf, Piece.sql, String.append_assoc]

theorem termsText_eq_sqlOf (first : Bool) (n : Nat) (ts : List Term)
    (h : Draft.AllBind fields (Term.predicatesOf ts)) :
    termsText fields first n ts = Piece.sqlOf (termsPieces (schemaNaming fields) first n ts) := by
  cases ts with
  | nil => rfl
  | cons t rest =>
    obtain ⟨ht, hrest⟩ := Draft.allBind_append.mp h
    rw [termsText, termText_eq_sqlOf n t ht, termsText_eq_sqlOf false _ rest hrest, termsPieces,
      Piece.sqlOf_append, Piece.sqlOf_append]
    cases first with
    | true => rfl
    | false => simp [Piece.sqlOf, Piece.sql]

end

end UrlFilter.Sql
