import UrlFilter.Filter.Json
import UrlFilter.Proofs.Json.Permuted

/-! Which documents are filters. `Filter.IsEncodedBy` says it by the members that an object has,
whatever their order and whatever stands beside them; a decoder that goes through the members in
their order finds just these filters. It refuses one thing more: a string without a text and a
number beyond the floats, wherever they stand. -/
namespace UrlFilter

theorem Operator.mem_spellings_of_ofSpelling? {s : String} {op : Operator}
    (h : ofSpelling? s = some op) : s ∈ spellings := by
  unfold ofSpelling? at h
  split at h
  case h_17 => cases h
  all_goals decide

open Json (named)

/-- Whether the members of an object say the predicate: each of its parts once, the operator in any
of its spellings. -/
def Predicate.IsSaidBy (test : Predicate) (members : List (Option String × Json)) : Prop :=
  (∃ s, named "op" members = [.text s] ∧ s ∈ Operator.spellings ∧
      Operator.ofSpelling? s = some test.op) ∧
    named "field" members = [.text test.field] ∧ named "value" members = [.text test.value]

namespace Term

mutual

/-- Whether the document encodes the term. An object that says a predicate is no group. -/
def IsEncodedBy : Term → Json → Prop
  | predicate link test, v => ∃ members, v = .object members ∧
      named "logic" members = [.text link.name] ∧ test.IsSaidBy members
  | group link terms, v => ∃ members items, v = .object members ∧
      named "logic" members = [.text link.name] ∧ (∀ test : Predicate, ¬ test.IsSaidBy members) ∧
      named "sub_filter" members = [.array items] ∧ AreEncodedBy terms items

/-- Whether the items of an array encode the terms. -/
def AreEncodedBy : List Term → List Json → Prop
  | [], [] => True
  | t :: terms, v :: items => t.IsEncodedBy v ∧ AreEncodedBy terms items
  | _, _ => False

end

end Term

/-- Whether the document encodes the filter: an array of what encodes its terms. -/
def Filter.IsEncodedBy (f : Filter) (v : Json) : Prop :=
  ∃ items, v = .array items ∧ Term.AreEncodedBy f items

/-! ## The members of a term as they are read -/

theorem Connective.ofJson_eq_ok_iff {v : Json} {link : Connective} :
    ofJson v = .ok link ↔ v = link.toJson := by
  constructor
  · intro h
    unfold ofJson at h
    split at h
    · split at h
      · rename_i s link' hname
        cases h
        unfold ofName? at hname
        split at hname <;> cases hname <;> rfl
      · cases h
    · cases h
  · rintro rfl
    simp [toJson, ofJson]

theorem Connective.toJson_inj {link link' : Connective} :
    link.toJson = link'.toJson ↔ link = link' := by
  rw [← ofJson_eq_ok_iff, ofJson_eq_ok_iff.mpr rfl, Except.ok.injEq]

theorem Connective.eq_of_map_toJson_eq {link link' : Option Connective}
    (h : link.toList.map toJson = link'.toList.map toJson) : link = link' := by
  cases link <;> cases link'
  · rfl
  · cases h
  · cases h
  · rw [toJson_inj.mp (List.cons.inj h).1]

/-- A connective that is read is the only one. -/
theorem Connective.map_toJson_append_cons_eq {link link' : Option Connective} {v : Json}
    {rest : List Json} (h : link.toList.map toJson ++ v :: rest = link'.toList.map toJson) :
    link = none ∧ ∃ only : Connective, v = only.toJson ∧ rest = [] ∧ link' = some only := by
  cases link' with
  | none => simp at h
  | some only =>
    cases link with
    | none => simpa using h
    | some link => simp at h

theorem Operator.toOption_ofJson_eq_some_iff {v : Json} {op : Operator} :
    (ofJson v).toOption = some op ↔ ∃ s, v = .text s ∧ s ∈ spellings ∧ ofSpelling? s = some op := by
  constructor
  · intro h
    unfold ofJson at h
    split at h
    · rename_i s
      split at h
      · rename_i op' hop
        cases h
        exact ⟨s, rfl, mem_spellings_of_ofSpelling? hop, hop⟩
      · cases h
    · cases h
  · rintro ⟨s, rfl, -, hop⟩
    simp [ofJson, hop, Except.toOption]

theorem Json.toOption_decodeString_eq_some_iff {v : Json} {s : String} :
    (decodeString v).toOption = some s ↔ v = .text s := by
  unfold decodeString
  split <;> simp_all [Except.toOption]

namespace Term

variable {room : Nat} {members : List (Option String × Json)} {link : Connective}

/-- The value that the reader takes from values which it adds to a list one after another. -/
theorem sole?_reverse_map_eq_some_iff {α : Type} {f : Json → Option α} {vs : List Json} {a : α} :
    sole? ((vs.map f).reverse ++ []) = some a ↔ ∃ v, vs = [v] ∧ f v = some a := by
  rw [List.append_nil]
  cases vs with
  | nil => simp [sole?]
  | cons v vs =>
    cases vs with
    | nil => cases hf : f v <;> simp [sole?, hf]
    | cons w vs =>
      refine iff_of_false ?_ nofun
      generalize hall : (List.map f (v :: w :: vs)).reverse = all
      have hlength : all.length = vs.length + 2 := by simp [← hall]
      match all with
      | [] | [_] => simp at hlength
      | none :: _ :: _ | some _ :: _ :: _ => simp [sole?]

namespace Parts

/-- Whether the parts say the predicate. -/
def Say (parts : Parts) (test : Predicate) : Prop :=
  sole? parts.op = some test.op ∧ sole? parts.field = some test.field ∧
    sole? parts.value = some test.value

/-- The parts with all members of an object added to them, and with this connective. -/
def extend (room : Nat) (members : List (Option String × Json)) (parts : Parts)
    (link : Option Connective) : Parts where
  link
  op := ((named "op" members).map fun v => (Operator.ofJson v).toOption).reverse ++ parts.op
  field := ((named "field" members).map fun v => (Json.decodeString v).toOption).reverse ++
    parts.field
  value := ((named "value" members).map fun v => (Json.decodeString v).toOption).reverse ++
    parts.value
  terms := ((named "sub_filter" members).map fun v => (arrayOfJson room v).toOption).reverse ++
    parts.terms

theorem term_eq_predicate_iff {parts : Parts} {test : Predicate} :
    parts.term = .ok (predicate link test) ↔ parts.link = some link ∧ parts.Say test := by
  unfold term Say
  split
  · simp_all
  · split
    · obtain ⟨op, field, value⟩ := test
      simp_all
    · split <;> simp_all

theorem term_eq_group_iff {parts : Parts} {terms : List Term} :
    parts.term = .ok (group link terms) ↔ parts.link = some link ∧
      (∀ test, ¬ parts.Say test) ∧ sole? parts.terms = some terms := by
  unfold term Say
  split
  · simp_all
  · split
    · rename_i op field value hop hfield hvalue
      exact iff_of_false nofun fun h => h.2.1 ⟨op, field, value⟩ ⟨hop, hfield, hvalue⟩
    · rename_i hnone
      have hsay : ∀ test : Predicate, ¬ (sole? parts.op = some test.op ∧
          sole? parts.field = some test.field ∧ sole? parts.value = some test.value) :=
        fun test h => hnone _ _ _ h.1 h.2.1 h.2.2
      split <;> simp_all

theorem say_extend_iff {test : Predicate} {link : Option Connective} :
    (extend room members {} link).Say test ↔ test.IsSaidBy members := by
  simp only [Say, extend, sole?_reverse_map_eq_some_iff, Operator.toOption_ofJson_eq_some_iff,
    Json.toOption_decodeString_eq_some_iff, Predicate.IsSaidBy]
  constructor
  · rintro ⟨⟨_, hop, s, rfl, hs⟩, ⟨_, hfield, rfl⟩, _, hvalue, rfl⟩
    exact ⟨⟨s, hop, hs⟩, hfield, hvalue⟩
  · rintro ⟨⟨s, hop, hs⟩, hfield, hvalue⟩
    exact ⟨⟨_, hop, s, rfl, hs⟩, ⟨_, hfield, rfl⟩, _, hvalue, rfl⟩

theorem sole?_terms_extend_iff {terms : List Term} {link : Option Connective} :
    sole? (extend room members {} link).terms = some terms ↔
      ∃ v, named "sub_filter" members = [v] ∧ arrayOfJson room v = .ok terms := by
  simp only [extend, sole?_reverse_map_eq_some_iff]
  refine exists_congr fun v => and_congr_right fun _ => ?_
  cases arrayOfJson room v <;> simp [Except.toOption]

theorem link_add (parts : Parts) (name : String) (v : Json) :
    (parts.add name v).link = parts.link := by
  unfold add
  split
  · rfl
  · split
    · rfl
    · split <;> rfl

theorem extend_cons_logic (room : Nat) (v : Json) (parts : Parts) (link link' : Option Connective) :
    extend room ((some "logic", v) :: members) parts link' =
      extend room members { parts with link } link' := by
  simp [extend, Json.named_cons_of_ne]

theorem extend_cons_terms (room : Nat) (v : Json) (parts : Parts) (link : Option Connective) :
    extend room ((some "sub_filter", v) :: members) parts link =
      extend room members { parts with terms := (arrayOfJson room v).toOption :: parts.terms }
        link := by
  simp [extend, Json.named_cons_of_ne]

theorem extend_cons_other {name : String} (h : name ≠ "sub_filter") (room : Nat) (v : Json)
    (parts : Parts) (link : Option Connective) :
    extend room ((some name, v) :: members) parts link =
      extend room members (parts.add name v) link := by
  unfold add
  split
  · subst name
    simp [extend, Json.named_cons_of_ne]
  · rename_i hop
    split
    · subst name
      simp [extend, Json.named_cons_of_ne]
    · rename_i hfield
      split
      · subst name
        simp [extend, Json.named_cons_of_ne]
      · rename_i hvalue
        simp [extend, Json.named_cons_of_ne, h, hop, hfield, hvalue]

end Parts

theorem readParts_cons_logic_iff {v : Json} {parts parts' : Parts} :
    readParts room ((some "logic", v) :: members) parts = .ok parts' ↔
      parts.link = none ∧ ∃ link : Connective, v = link.toJson ∧
        readParts room members { parts with link := some link } = .ok parts' := by
  rw [readParts, if_pos rfl]
  cases hparts : parts.link with
  | some link => simp
  | none =>
    cases hv : Connective.ofJson v with
    | error e =>
      have hnone : ∀ link : Connective, v ≠ link.toJson := by
        rintro link rfl
        rw [Connective.ofJson_eq_ok_iff.mpr rfl] at hv
        cases hv
      simp [hnone]
    | ok link =>
      obtain rfl := Connective.ofJson_eq_ok_iff.mp hv
      simp [Connective.toJson_inj]

theorem readParts_cons_terms_iff {v : Json} {parts parts' : Parts} :
    readParts room ((some "sub_filter", v) :: members) parts = .ok parts' ↔
      (v.isPlain = true ∧ v.nesting ≤ room) ∧
        readParts room members
          { parts with terms := (arrayOfJson room v).toOption :: parts.terms } = .ok parts' := by
  rw [readParts, if_neg (by decide)]
  split
  · rename_i hbad
    simp [hbad]
  · rename_i hgood
    simp [Decidable.not_not.mp hgood]

theorem readParts_cons_other_iff {name : String} (hlogic : name ≠ "logic")
    (hterms : name ≠ "sub_filter") {v : Json} {parts parts' : Parts} :
    readParts room ((some name, v) :: members) parts = .ok parts' ↔
      (v.isPlain = true ∧ v.nesting ≤ room) ∧
        readParts room members (parts.add name v) = .ok parts' := by
  rw [readParts, if_neg hlogic, if_neg hterms]
  split
  · rename_i hbad
    simp [hbad]
  · rename_i hgood
    simp [Decidable.not_not.mp hgood]

/-- The members are read exactly if none of them is too deep or without a value and they give one
connective at most. Then each of them has been added to the parts. -/
theorem readParts_eq_ok_iff {parts parts' : Parts} :
    readParts room members parts = .ok parts' ↔
      (∀ m ∈ members, m.1.isSome = true ∧ m.2.isPlain = true ∧ m.2.nesting ≤ room) ∧
      ∃ link : Option Connective,
        parts.link.toList.map Connective.toJson ++ named "logic" members =
          link.toList.map Connective.toJson ∧ parts' = parts.extend room members link := by
  induction members generalizing parts with
  | nil =>
    rw [readParts]
    constructor
    · intro h
      exact ⟨nofun, parts.link, List.append_nil _, (Except.ok.inj h).symm⟩
    · rintro ⟨-, link, hlink, rfl⟩
      rw [Json.named_nil, List.append_nil] at hlink
      rw [← Connective.eq_of_map_toJson_eq hlink]
      rfl
  | cons m rest ih =>
    obtain ⟨name?, v⟩ := m
    cases name? with
    | none => simp [readParts]
    | some name =>
      by_cases hlogic : name = "logic"
      · subst name
        rw [readParts_cons_logic_iff, Json.named_cons_self, List.forall_mem_cons]
        simp only [ih]
        constructor
        · rintro ⟨hnone, link, rfl, hrest, link', hlink, rfl⟩
          rw [hnone]
          exact ⟨⟨⟨rfl, rfl, Nat.zero_le room⟩, hrest⟩, link', hlink,
            (Parts.extend_cons_logic room _ parts (some link) link').symm⟩
        · rintro ⟨⟨-, hrest⟩, link', hlink, rfl⟩
          obtain ⟨hnone, link, rfl, hnamed, rfl⟩ := Connective.map_toJson_append_cons_eq hlink
          refine ⟨hnone, link, rfl, hrest, some link, ?_, Parts.extend_cons_logic ..⟩
          rw [hnamed, List.append_nil]
      · have hnamed : named "logic" ((some name, v) :: rest) = named "logic" rest :=
          Json.named_cons_of_ne (by simpa using hlogic)
        by_cases hterms : name = "sub_filter"
        · subst name
          rw [readParts_cons_terms_iff, ih, List.forall_mem_cons, hnamed]
          simp [Parts.extend_cons_terms, and_assoc]
        · rw [readParts_cons_other_iff hlogic hterms, ih, List.forall_mem_cons, hnamed,
            Parts.link_add]
          simp [Parts.extend_cons_other hterms, and_assoc]

/-! ## Terms and filters -/

/-- What an object is read as depends on its parts alone. -/
theorem ofJson_eq_ok_iff_parts {v : Json} {t : Term} :
    ofJson room v = .ok t ↔ v.nesting ≤ room ∧ v.isPlain = true ∧
      ∃ members link, v = .object members ∧ named "logic" members = [.text link.name] ∧
        (Parts.extend (room - 1) members {} (some link)).term = .ok t := by
  cases v with
  | null | bool | number | string | array =>
    exact iff_of_false (by simp [ofJson]) (by rintro ⟨-, -, _, _, heq, -⟩; cases heq)
  | object members =>
    cases room with
    | zero => exact iff_of_false (by simp [ofJson]) fun h => Nat.not_succ_le_zero _ h.1
    | succ room =>
      rw [Json.nesting_object_le_iff, Json.isPlain_object_iff, ofJson]
      constructor
      · intro h
        cases hparts : readParts room members {} with
        | error e => simp [hparts] at h
        | ok parts =>
          rw [hparts] at h
          obtain ⟨hmembers, link, hlogic, rfl⟩ := readParts_eq_ok_iff.mp hparts
          cases link with
          | none => cases h
          | some link =>
            exact ⟨fun m hm => (hmembers m hm).2.2,
              fun m hm => ⟨(hmembers m hm).1, (hmembers m hm).2.1⟩, members, link, rfl, hlogic, h⟩
      · rintro ⟨hnesting, hplain, _, link, heq, hlogic, hterm⟩
        cases heq
        have hparts : readParts room members {} = .ok (Parts.extend room members {} (some link)) :=
          readParts_eq_ok_iff.mpr ⟨fun m hm => ⟨(hplain m hm).1, (hplain m hm).2, hnesting m hm⟩,
            some link, hlogic, rfl⟩
        rw [hparts]
        exact hterm

theorem arrayOfJson_eq_ok_iff_of_items {terms : List Term}
    (h : ∀ room items, listOfJson room items = .ok terms ↔
      (∀ v ∈ items, v.nesting ≤ room ∧ v.isPlain = true) ∧ AreEncodedBy terms items)
    (room : Nat) (v : Json) : arrayOfJson room v = .ok terms ↔
      v.nesting ≤ room ∧ v.isPlain = true ∧ Filter.IsEncodedBy terms v := by
  cases v with
  | null | bool | number | string | object =>
    exact iff_of_false (by simp [arrayOfJson]) (by rintro ⟨-, -, _, heq, -⟩; cases heq)
  | array items =>
    cases room with
    | zero => exact iff_of_false (by simp [arrayOfJson]) fun h => Nat.not_succ_le_zero _ h.1
    | succ room =>
      rw [Json.nesting_array_le_iff, Json.isPlain_array_iff, arrayOfJson, h]
      constructor
      · rintro ⟨hitems, hterms⟩
        exact ⟨fun v hv => (hitems v hv).1, fun v hv => (hitems v hv).2, items, rfl, hterms⟩
      · rintro ⟨hnesting, hplain, _, heq, hterms⟩
        cases heq
        exact ⟨fun v hv => ⟨hnesting v hv, hplain v hv⟩, hterms⟩

mutual

theorem ofJson_eq_ok_iff (room : Nat) (v : Json) : (t : Term) →
    (ofJson room v = .ok t ↔ v.nesting ≤ room ∧ v.isPlain = true ∧ t.IsEncodedBy v)
  | predicate link test => by
    rw [ofJson_eq_ok_iff_parts, IsEncodedBy]
    refine and_congr_right fun _ => and_congr_right fun _ => ?_
    simp only [Parts.term_eq_predicate_iff, Parts.say_extend_iff]
    constructor
    · rintro ⟨members, _, rfl, hlogic, hlink, htest⟩
      cases hlink
      exact ⟨members, rfl, hlogic, htest⟩
    · rintro ⟨members, rfl, hlogic, htest⟩
      exact ⟨members, link, rfl, hlogic, rfl, htest⟩
  | group link terms => by
    have hterms := arrayOfJson_eq_ok_iff_of_items (listOfJson_eq_ok_iff terms)
    rw [ofJson_eq_ok_iff_parts, IsEncodedBy]
    refine and_congr_right fun hnesting => and_congr_right fun hplain => ?_
    simp only [Parts.term_eq_group_iff, Parts.say_extend_iff, Parts.sole?_terms_extend_iff, hterms]
    constructor
    · rintro ⟨members, _, rfl, hlogic, hlink, hnone, _, hsub, -, -, items, rfl, hitems⟩
      cases hlink
      exact ⟨members, items, rfl, hlogic, hnone, hsub, hitems⟩
    · rintro ⟨members, items, rfl, hlogic, hnone, hsub, hitems⟩
      -- the filter inside may be decoded because the object around it may
      have hmem := Json.mem_of_named_eq_singleton hsub
      have hinside := Json.nesting_lt_of_mem hmem
      have hroom : (Json.array items).nesting ≤ room - 1 := by omega
      exact ⟨members, link, rfl, hlogic, rfl, hnone, _, hsub, hroom,
        (Json.isPlain_object_iff.mp hplain _ hmem).2, items, rfl, hitems⟩

theorem listOfJson_eq_ok_iff : (terms : List Term) → (room : Nat) → (items : List Json) →
    (listOfJson room items = .ok terms ↔
      (∀ v ∈ items, v.nesting ≤ room ∧ v.isPlain = true) ∧ AreEncodedBy terms items)
  | [], room, [] => by simp [listOfJson, AreEncodedBy]
  | [], room, v :: items => by
    refine iff_of_false ?_ fun h => h.2
    rw [listOfJson]
    cases ofJson room v with
    | error e => exact nofun
    | ok t => cases listOfJson room items <;> exact nofun
  | t :: terms, room, [] => by simp [listOfJson, AreEncodedBy]
  | t :: terms, room, v :: items => by
    have ht := ofJson_eq_ok_iff room v t
    have hterms := listOfJson_eq_ok_iff terms room items
    rw [AreEncodedBy, List.forall_mem_cons, listOfJson]
    constructor
    · intro h
      cases hfirst : ofJson room v with
      | error e => simp [hfirst] at h
      | ok t' =>
        cases hrest : listOfJson room items with
        | error e => simp [hfirst, hrest] at h
        | ok terms' =>
          simp only [hfirst, hrest, Except.ok.injEq, List.cons.injEq] at h
          obtain ⟨rfl, rfl⟩ := h
          obtain ⟨hnesting, hplain, hv⟩ := ht.mp hfirst
          obtain ⟨hall, hitems⟩ := hterms.mp hrest
          exact ⟨⟨⟨hnesting, hplain⟩, hall⟩, hv, hitems⟩
    · rintro ⟨⟨hv, hall⟩, hfirst, hrest⟩
      rw [ht.mpr ⟨hv.1, hv.2, hfirst⟩, hterms.mpr ⟨hall, hrest⟩]

end

theorem arrayOfJson_eq_ok_iff (room : Nat) (v : Json) (terms : List Term) :
    arrayOfJson room v = .ok terms ↔
      v.nesting ≤ room ∧ v.isPlain = true ∧ Filter.IsEncodedBy terms v :=
  arrayOfJson_eq_ok_iff_of_items (listOfJson_eq_ok_iff terms) room v

/-! ## What counts for nothing -/

/-- The names of the members that a term is read from. -/
def memberNames : List String :=
  ["logic", "op", "field", "value", "sub_filter"]

theorem not_isEncodedBy_array {t : Term} {items : List Json} : ¬ t.IsEncodedBy (.array items) := by
  cases t with
  | predicate link test =>
    rintro ⟨members, heq, -⟩
    cases heq
  | group link terms =>
    rintro ⟨members, items, heq, -⟩
    cases heq

theorem not_isEncodedBy_object {f : Filter} : ¬ f.IsEncodedBy (.object members) := by
  rintro ⟨items, heq, -⟩
  cases heq

theorem exists_named_isEncodedBy_iff {name : String} {f : Filter} :
    (∃ v, named name members = [v] ∧ f.IsEncodedBy v) ↔
      ∃ items, named name members = [.array items] ∧ AreEncodedBy f items := by
  constructor
  · rintro ⟨_, hnamed, items, rfl, hitems⟩
    exact ⟨items, hnamed, hitems⟩
  · rintro ⟨items, hnamed, hitems⟩
    exact ⟨_, hnamed, items, rfl, hitems⟩

theorem areEncodedBy_replace_iff {v v' : Json}
    (h : ∀ t : Term, t.IsEncodedBy v ↔ t.IsEncodedBy v') (terms : List Term)
    (before after : List Json) :
    AreEncodedBy terms (before ++ v :: after) ↔ AreEncodedBy terms (before ++ v' :: after) := by
  induction before generalizing terms with
  | nil =>
    cases terms with
    | nil => exact Iff.rfl
    | cons t terms => exact and_congr_left fun _ => h t
  | cons u before ih =>
    cases terms with
    | nil => exact Iff.rfl
    | cons t terms => exact and_congr_right fun _ => ih terms

/-- Objects encode the same terms if they have the same texts and filters under the names that a
term is read from. -/
theorem isEncodedBy_object_congr {members members' : List (Option String × Json)}
    (htext : ∀ name ∈ memberNames, ∀ s,
      named name members = [.text s] ↔ named name members' = [.text s])
    (hterms : ∀ f : Filter, (∃ v, named "sub_filter" members = [v] ∧ f.IsEncodedBy v) ↔
      ∃ v, named "sub_filter" members' = [v] ∧ f.IsEncodedBy v)
    (t : Term) : t.IsEncodedBy (.object members) ↔ t.IsEncodedBy (.object members') := by
  have hlogic := htext "logic" (by decide)
  have hsaid (test : Predicate) : test.IsSaidBy members ↔ test.IsSaidBy members' := by
    simp only [Predicate.IsSaidBy, htext "op" (by decide), htext "field" (by decide),
      htext "value" (by decide)]
  cases t with
  | predicate link test => simp [IsEncodedBy, hlogic, hsaid]
  | group link terms =>
    have hsub := hterms terms
    simp only [exists_named_isEncodedBy_iff] at hsub
    simp only [IsEncodedBy, Json.object.injEq, exists_and_left, exists_eq_left', hlogic, hsaid,
      hsub]

/-- Of documents whose members stand in another order the same terms are read, and the same
filters. -/
theorem isEncodedBy_iff_of_permuted {v v' : Json} (h : Json.Permuted v v') :
    (∀ t : Term, t.IsEncodedBy v ↔ t.IsEncodedBy v') ∧
      ∀ f : Filter, f.IsEncodedBy v ↔ f.IsEncodedBy v' := by
  induction h with
  | refl => exact ⟨fun _ => Iff.rfl, fun _ => Iff.rfl⟩
  | members h =>
    refine ⟨isEncodedBy_object_congr (fun name _ s => ?_) fun f => ?_, fun f => ?_⟩
    · exact ⟨Json.named_eq_singleton_of_perm h, Json.named_eq_singleton_of_perm h.symm⟩
    · refine exists_congr fun v => and_congr_left fun _ => ?_
      exact ⟨Json.named_eq_singleton_of_perm h, Json.named_eq_singleton_of_perm h.symm⟩
    · exact iff_of_false not_isEncodedBy_object not_isEncodedBy_object
  | item before after _ ih =>
    refine ⟨fun t => iff_of_false not_isEncodedBy_array not_isEncodedBy_array, fun f => ?_⟩
    simpa [Filter.IsEncodedBy] using areEncodedBy_replace_iff ih.1 f before after
  | member before after name h ih =>
    refine ⟨isEncodedBy_object_congr (fun other _ s => ?_) fun f => ?_, fun f => ?_⟩
    · simpa using Json.exists_named_replace_iff (P := (· = .text s)) h.eq_string_iff before after
        name
    · exact Json.exists_named_replace_iff (ih.2 f) before after name
    · exact iff_of_false not_isEncodedBy_object not_isEncodedBy_object
  | trans _ _ ih ih' =>
    exact ⟨fun t => (ih.1 t).trans (ih'.1 t), fun f => (ih.2 f).trans (ih'.2 f)⟩

/-- A member that a term is not read from changes nothing about the term. -/
theorem isEncodedBy_insert_iff {name : String} (hname : name ∉ memberNames) (v : Json)
    (before after : List (Option String × Json)) (t : Term) :
    t.IsEncodedBy (.object (before ++ (some name, v) :: after)) ↔
      t.IsEncodedBy (.object (before ++ after)) := by
  have hnamed : ∀ other ∈ memberNames,
      named other (before ++ (some name, v) :: after) = named other (before ++ after) := by
    intro other hother
    have hne : some name ≠ some other := by
      rintro ⟨⟩
      exact hname hother
    rw [Json.named_append, Json.named_append, Json.named_cons_of_ne hne]
  refine isEncodedBy_object_congr (fun other hother s => ?_) (fun f => ?_) t
  · rw [hnamed other hother]
  · rw [hnamed "sub_filter" (by decide)]

theorem ofJson_insert_iff {name : String} (hname : name ∉ memberNames) {v : Json}
    (hplain : v.isPlain = true) (hnesting : v.nesting ≤ room)
    (before after : List (Option String × Json)) (t : Term) :
    ofJson (room + 1) (.object (before ++ (some name, v) :: after)) = .ok t ↔
      ofJson (room + 1) (.object (before ++ after)) = .ok t := by
  simp only [ofJson_eq_ok_iff, isEncodedBy_insert_iff hname, Json.nesting_object_le_iff,
    Json.isPlain_object_iff, List.forall_mem_append, List.forall_mem_cons, hplain, hnesting,
    Option.isSome_some, true_and]

/-! ## The document that is written -/

mutual

/-- No document of a term is nested less deeply than the one that is written. -/
theorem nesting_toJson_le : {t : Term} → {v : Json} → t.IsEncodedBy v →
    t.toJson.nesting ≤ v.nesting
  | predicate link test, v, h => by
    obtain ⟨members, rfl, -⟩ := h
    rw [toJson, Json.nesting, Json.nesting_record_le_iff]
    simp [Connective.toJson, Operator.toJson, Json.nesting]
  | group link terms, v, h => by
    obtain ⟨members, items, rfl, -, -, hsub, hitems⟩ := h
    have hterms := nestingOfItems_listToJson_le hitems
    have hinside := Json.nesting_lt_of_mem (Json.mem_of_named_eq_singleton hsub)
    rw [Json.nesting, Json.nesting] at hinside
    have harray : (Json.array (listToJson terms)).nesting ≤ Json.nestingOfMembers members := by
      rw [Json.nesting]
      omega
    rw [toJson, Json.nesting, Json.nesting_record_le_iff]
    simpa [Connective.toJson, Json.nesting] using harray

theorem nestingOfItems_listToJson_le : {terms : List Term} → {items : List Json} →
    AreEncodedBy terms items →
    Json.nestingOfItems (listToJson terms) ≤ Json.nestingOfItems items
  | [], [], _ => Nat.le_refl _
  | t :: terms, v :: items, h => by
    have ht := nesting_toJson_le h.1
    have hterms := nestingOfItems_listToJson_le h.2
    rw [listToJson, Json.nestingOfItems, Json.nestingOfItems]
    omega

end

end Term

namespace Filter

/-- A text is a filter if it is a document that encodes one, is not nested too deeply and is plain:
all its strings and names are texts, and the short calculation of each of its numbers comes out
finite. An object with the parts of a predicate encodes the predicate, and one without them a group.
Neither the order of the members counts nor what stands beside them. -/
theorem documents_of_filters :
    (∀ v f, ofJson Json.maxNesting v = .ok f ↔
      v.nesting ≤ Json.maxNesting ∧ v.isPlain = true ∧ IsEncodedBy f v) ∧
    (∀ room v t, Term.ofJson room v = .ok t ↔
      v.nesting ≤ room ∧ v.isPlain = true ∧ t.IsEncodedBy v) ∧
    (∀ s f, Json.decodeText (ofJson Json.maxNesting) s = .ok f ↔
      ∃ v, Json.read s = .whole v ∧ v.nesting ≤ Json.maxNesting ∧ v.isPlain = true ∧
        IsEncodedBy f v) ∧
    (∀ v v' f, Json.Permuted v v' →
      (ofJson Json.maxNesting v = .ok f ↔ ofJson Json.maxNesting v' = .ok f)) ∧
    ∀ room before after name v t, name ∉ Term.memberNames → v.isPlain = true →
      v.nesting ≤ room →
      (Term.ofJson (room + 1) (.object (before ++ (some name, v) :: after)) = .ok t ↔
        Term.ofJson (room + 1) (.object (before ++ after)) = .ok t) := by
  have hdocument (v : Json) (f : Filter) : ofJson Json.maxNesting v = .ok f ↔
      v.nesting ≤ Json.maxNesting ∧ v.isPlain = true ∧ IsEncodedBy f v :=
    Term.arrayOfJson_eq_ok_iff _ v f
  refine ⟨hdocument, Term.ofJson_eq_ok_iff, fun s f => ?_, fun v v' f h => ?_, ?_⟩
  · simp only [Json.decodeText_eq_ok_iff, hdocument]
  · rw [hdocument, hdocument, h.nesting_eq, h.isPlain_eq, (Term.isEncodedBy_iff_of_permuted h).2 f]
  · intro room before after name v t hname hplain hnesting
    exact Term.ofJson_insert_iff hname hplain hnesting before after t

/-- A member that says something else may stand anywhere, and a predicate may have an ill-formed
filter beside it. -/
theorem documents_of_filters_mixed :
    ofJson Json.maxNesting (.array [.object [(some "op", .text "=>"), (some "logic", .text "START"),
        (some "sub_filter", .null), (some "field", .text "a"), (some "value", .text "1")]]) =
      .ok [.predicate .start ⟨.greaterEqual, "a", "1"⟩] ∧
    Term.ofJson 1 (.object ([(some "logic", .text "AND")] ++ (some "note", .null) ::
        [(some "op", .text ":"), (some "field", .text "a"), (some "value", .text "1")])) =
      .ok (.predicate .and ⟨.regex, "a", "1"⟩) := by
  obtain ⟨-, -, -, hpermuted, hinsert⟩ := documents_of_filters
  have hordered : ofJson Json.maxNesting (.array [.object [(some "logic", .text "START"),
      (some "op", .text "=>"), (some "sub_filter", .null), (some "field", .text "a"),
      (some "value", .text "1")]]) = .ok [.predicate .start ⟨.greaterEqual, "a", "1"⟩] := rfl
  have hshort : Term.ofJson 1 (.object ([(some "logic", .text "AND")] ++
      [(some "op", .text ":"), (some "field", .text "a"), (some "value", .text "1")])) =
        .ok (.predicate .and ⟨.regex, "a", "1"⟩) := rfl
  refine ⟨(hpermuted _ _ _ (.item [] [] (.members (.swap _ _ _)))).mp hordered, ?_⟩
  exact (hinsert 0 _ _ "note" .null _ (by decide) rfl (by decide)).mpr hshort

/-- A number that comes out infinite spoils a filter also where nothing reads it. -/
theorem infinite_number_refused :
    let v : Json := .array [.record [("logic", .text "START"), ("op", .text "="),
      ("field", .text "a"), ("value", .text "1"),
      ("x", .number { whole := 1, exponent := some 400 })]]
    v.nesting ≤ Json.maxNesting ∧ IsEncodedBy [.predicate .start ⟨.equal, "a", "1"⟩] v ∧
      ofJson Json.maxNesting v = .error .malformed ∧
      Json.decodeText (ofJson Json.maxNesting) v.compact = .error .malformed := by
  intro v
  have hrefused : ofJson Json.maxNesting v = .error .malformed := rfl
  have hnumber : (Json.number { whole := 1, exponent := some 400 }).IsWritable := by
    intro t ht
    obtain rfl := List.mem_singleton.mp ht
    exact nofun
  have hwritable : v.IsWritable := by
    refine Json.isWritable_array ?_
    simp only [List.forall_mem_singleton]
    refine Json.isWritable_record ?_
    simp [Json.isWritable_text, hnumber]
  have hencoded : IsEncodedBy [.predicate .start ⟨.equal, "a", "1"⟩] v :=
    ⟨_, rfl, ⟨_, rfl, rfl, ⟨"=", rfl, by decide, rfl⟩, rfl, rfl⟩, trivial⟩
  refine ⟨by decide, hencoded, hrefused, ?_⟩
  rw [(Json.decodeText_written _ hwritable).1, hrefused]

end Filter
end UrlFilter
