import UrlFilter.Json.Read
import UrlFilter.Json.Write
import UrlFilter.Proofs.Json.Token

/-! Documents are read back from both of their written forms: the tokens of a document lead the
reader to it, and either form is these tokens with blanks between them. The main statements are
`Json.read_compact` and `Json.read_pretty`. -/
namespace UrlFilter
namespace Json

/-! ## Reading the tokens of a document -/

mutual

/-- The tokens of a value take the reader behind that value, whatever is open around it. -/
theorem run_tokens (first : Bool) (stack : List Frame) (ts : List JsonToken) :
    (v : Json) → Reader.run ⟨.value first, stack⟩ (v.tokens ++ ts) =
      Reader.run ⟨.after v, stack⟩ ts
  | null => rfl
  | bool _ => rfl
  | number _ => rfl
  | string _ => rfl
  | array [] => rfl
  | array (v :: items) => by
    have hitems := run_itemTokens true [] stack ts (v :: items) (List.cons_ne_nil v items)
    rw [tokens, List.cons_append, List.append_assoc]
    exact hitems
  | object [] => rfl
  | object (m :: members) => by
    have hmembers := run_memberTokens true [] stack ts (m :: members) (List.cons_ne_nil m members)
    rw [tokens, List.cons_append, List.append_assoc]
    exact hmembers

/-- The tokens of items go behind the items that are already read. -/
theorem run_itemTokens (first : Bool) (done : List Json) (stack : List Frame)
    (ts : List JsonToken) : (items : List Json) → items ≠ [] →
    Reader.run ⟨.value first, .array done :: stack⟩ (itemTokens items ++ .closeArray :: ts) =
      Reader.run ⟨.after (.array (done.reverse ++ items)), stack⟩ ts
  | [], h => absurd rfl h
  | [v], _ => by
    rw [itemTokens, run_tokens first _ _ v]
    simp [Reader.run, Reader.step?]
  | v :: w :: items, _ => by
    have hitems := run_itemTokens false (v :: done) stack ts (w :: items) (List.cons_ne_nil w items)
    rw [itemTokens, List.append_assoc, run_tokens first _ _ v, List.cons_append]
    simpa [Reader.run, Reader.step?] using hitems

/-- The tokens of members go behind the members that are already read. -/
theorem run_memberTokens (first : Bool) (done : List (Option String × Json)) (stack : List Frame)
    (ts : List JsonToken) : (members : List (Option String × Json)) → members ≠ [] →
    Reader.run ⟨.name done first, stack⟩ (memberTokens members ++ .closeObject :: ts) =
      Reader.run ⟨.after (.object (done.reverse ++ members)), stack⟩ ts
  | [], h => absurd rfl h
  | [(name, v)], _ => by
    have hv := run_tokens false (.object done name :: stack) (.closeObject :: ts) v
    simpa [memberTokens, Reader.run, Reader.step?] using hv
  | (name, v) :: m :: members, _ => by
    have hv := run_tokens false (.object done name :: stack)
      (.comma :: (memberTokens (m :: members) ++ .closeObject :: ts)) v
    have hmembers := run_memberTokens false ((name, v) :: done) stack ts (m :: members)
      (List.cons_ne_nil m members)
    simp only [memberTokens, List.cons_append, List.append_assoc]
    simpa [Reader.run, Reader.step?] using hv.trans hmembers

end

/-! ## Tokens of a document stand apart -/

mutual

theorem areApart_tokens {ts : List JsonToken} (hts : AreApart ts)
    (hhead : ∀ u ∈ ts.head?, u.isPunctuation = true) : (v : Json) → AreApart (v.tokens ++ ts)
  | null => ⟨by simp [JsonToken.isNumber], hts⟩
  | bool _ => ⟨by simp [JsonToken.isNumber], hts⟩
  | number _ => ⟨fun _ => hhead, hts⟩
  | string _ => ⟨by simp [JsonToken.isNumber], hts⟩
  | array items => by
    have hclose : AreApart (.closeArray :: ts) := ⟨by simp [JsonToken.isNumber], hts⟩
    have hitems := areApart_itemTokens hclose (by simp [JsonToken.isPunctuation]) items
    rw [tokens, List.cons_append, List.append_assoc]
    exact ⟨by simp [JsonToken.isNumber], hitems⟩
  | object members => by
    have hclose : AreApart (.closeObject :: ts) := ⟨by simp [JsonToken.isNumber], hts⟩
    have hmembers := areApart_memberTokens hclose (by simp [JsonToken.isPunctuation]) members
    rw [tokens, List.cons_append, List.append_assoc]
    exact ⟨by simp [JsonToken.isNumber], hmembers⟩

theorem areApart_itemTokens {ts : List JsonToken} (hts : AreApart ts)
    (hhead : ∀ u ∈ ts.head?, u.isPunctuation = true) :
    (items : List Json) → AreApart (itemTokens items ++ ts)
  | [] => hts
  | [v] => areApart_tokens hts hhead v
  | v :: w :: items => by
    have hcomma : AreApart (.comma :: (itemTokens (w :: items) ++ ts)) :=
      ⟨by simp [JsonToken.isNumber], areApart_itemTokens hts hhead (w :: items)⟩
    rw [itemTokens, List.append_assoc, List.cons_append]
    exact areApart_tokens hcomma (by simp [JsonToken.isPunctuation]) v

theorem areApart_memberTokens {ts : List JsonToken} (hts : AreApart ts)
    (hhead : ∀ u ∈ ts.head?, u.isPunctuation = true) :
    (members : List (Option String × Json)) → AreApart (memberTokens members ++ ts)
  | [] => hts
  | [(name, v)] =>
    ⟨by simp [JsonToken.isNumber], by simp [JsonToken.isNumber], areApart_tokens hts hhead v⟩
  | (name, v) :: m :: members => by
    have hcomma : AreApart (.comma :: (memberTokens (m :: members) ++ ts)) :=
      ⟨by simp [JsonToken.isNumber], areApart_memberTokens hts hhead (m :: members)⟩
    rw [memberTokens, List.cons_append, List.cons_append, List.append_assoc, List.cons_append]
    exact ⟨by simp [JsonToken.isNumber], by simp [JsonToken.isNumber],
      areApart_tokens hcomma (by simp [JsonToken.isPunctuation]) v⟩

end

/-! ## The indented form is spaced tokens -/

theorem isBlank_of_mem_lineBreak (depth : Nat) : ∀ c ∈ lineBreak depth, isBlank c = true := by
  intro c hc
  rcases List.mem_cons.mp hc with rfl | hc
  · rfl
  · rw [List.eq_of_mem_replicate hc]
    rfl

mutual

theorem spaced_prettyChars (depth : Nat) {s : List Char} {ts : List JsonToken}
    (h : Spaced s ts) : (v : Json) → Spaced (prettyChars depth v ++ s) (v.tokens ++ ts)
  | null => .token .null h
  | bool b => .token (.bool b) h
  | number n => .token (.number n) h
  | string text => .token (.string text) h
  | array [] => .token .openArray (.token .closeArray h)
  | array (v :: items) => by
    have hclose : Spaced (lineBreak depth ++ (JsonToken.text .closeArray ++ s))
        (.closeArray :: ts) := (Spaced.token _ h).blanks (isBlank_of_mem_lineBreak depth)
    have hitems := Spaced.token .openArray
      (spaced_prettyItems (depth + 1) hclose (v :: items))
    simpa only [prettyChars, tokens, List.append_assoc, List.cons_append, List.nil_append]
      using hitems
  | object [] => .token .openObject (.token .closeObject h)
  | object (m :: members) => by
    have hclose : Spaced (lineBreak depth ++ (JsonToken.text .closeObject ++ s))
        (.closeObject :: ts) := (Spaced.token _ h).blanks (isBlank_of_mem_lineBreak depth)
    have hmembers := Spaced.token .openObject
      (spaced_prettyMembers (depth + 1) hclose (m :: members))
    simpa only [prettyChars, tokens, List.append_assoc, List.cons_append, List.nil_append]
      using hmembers

theorem spaced_prettyItems (depth : Nat) {s : List Char} {ts : List JsonToken}
    (h : Spaced s ts) :
    (items : List Json) → Spaced (prettyItems depth items ++ s) (itemTokens items ++ ts)
  | [] => h
  | [v] => by
    have hv := (spaced_prettyChars depth h v).blanks (isBlank_of_mem_lineBreak depth)
    simpa only [prettyItems, itemTokens, List.append_assoc] using hv
  | v :: w :: items => by
    have hitems := Spaced.token .comma (spaced_prettyItems depth h (w :: items))
    have hv := (spaced_prettyChars depth hitems v).blanks (isBlank_of_mem_lineBreak depth)
    simpa only [prettyItems, itemTokens, List.append_assoc, List.cons_append] using hv

theorem spaced_prettyMembers (depth : Nat) {s : List Char} {ts : List JsonToken}
    (h : Spaced s ts) : (members : List (Option String × Json)) →
      Spaced (prettyMembers depth members ++ s) (memberTokens members ++ ts)
  | [] => h
  | [(name, v)] => by
    have hv := spaced_prettyChars depth h v
    have hname := Spaced.token (.string name)
      (.token .colon (.blank (c := ' ') rfl hv))
    have hline := hname.blanks (isBlank_of_mem_lineBreak depth)
    simpa [prettyMembers, memberTokens, JsonToken.text] using hline
  | (name, v) :: m :: members => by
    have hmembers := Spaced.token .comma (spaced_prettyMembers depth h (m :: members))
    have hv := spaced_prettyChars depth hmembers v
    have hname := Spaced.token (.string name)
      (.token .colon (.blank (c := ' ') rfl hv))
    have hline := hname.blanks (isBlank_of_mem_lineBreak depth)
    simpa [prettyMembers, memberTokens, JsonToken.text] using hline

end

/-! ## Documents that are read back -/

/-- Whether each token of the document has a text of its own. -/
def IsWritable (v : Json) : Prop :=
  ∀ t ∈ v.tokens, t.IsWritable

theorem isWritable_text (s : String) : (text s).IsWritable := by
  intro t ht
  obtain rfl := List.mem_singleton.mp ht
  rfl

theorem isWritable_bool (b : Bool) : (bool b).IsWritable := by
  intro t ht
  obtain rfl := List.mem_singleton.mp ht
  trivial

theorem isWritable_natural (n : Nat) : (natural n).IsWritable := by
  intro t ht
  obtain rfl := List.mem_singleton.mp ht
  intro c hc
  simp at hc

theorem mem_itemTokens {t : JsonToken} {items : List Json} (h : t ∈ itemTokens items) :
    t = .comma ∨ ∃ v ∈ items, t ∈ v.tokens := by
  induction items with
  | nil => simp [itemTokens] at h
  | cons v items ih =>
    cases items with
    | nil => exact .inr ⟨v, by simp, h⟩
    | cons w items =>
      rw [itemTokens, List.mem_append, List.mem_cons] at h
      rcases h with h | h | h
      · exact .inr ⟨v, by simp, h⟩
      · exact .inl h
      · rcases ih h with h | ⟨u, hu, h⟩
        · exact .inl h
        · exact .inr ⟨u, List.mem_cons_of_mem v hu, h⟩

theorem mem_memberTokens {t : JsonToken} {members : List (Option String × Json)}
    (h : t ∈ memberTokens members) :
    t = .comma ∨ t = .colon ∨ ∃ m ∈ members, t = .string m.1 ∨ t ∈ m.2.tokens := by
  induction members with
  | nil => simp [memberTokens] at h
  | cons m members ih =>
    obtain ⟨name, v⟩ := m
    cases members with
    | nil =>
      rw [memberTokens, List.mem_cons, List.mem_cons] at h
      rcases h with h | h | h
      · exact .inr (.inr ⟨(name, v), by simp, .inl h⟩)
      · exact .inr (.inl h)
      · exact .inr (.inr ⟨(name, v), by simp, .inr h⟩)
    | cons m members =>
      rw [memberTokens, List.mem_cons, List.mem_cons, List.mem_append, List.mem_cons] at h
      rcases h with h | h | h | h | h
      · exact .inr (.inr ⟨(name, v), by simp, .inl h⟩)
      · exact .inr (.inl h)
      · exact .inr (.inr ⟨(name, v), by simp, .inr h⟩)
      · exact .inl h
      · rcases ih h with h | h | ⟨n, hn, h⟩
        · exact .inl h
        · exact .inr (.inl h)
        · exact .inr (.inr ⟨n, List.mem_cons_of_mem _ hn, h⟩)

theorem isWritable_array {items : List Json} (h : ∀ v ∈ items, v.IsWritable) :
    (array items).IsWritable := by
  intro t ht
  rw [tokens, List.mem_cons, List.mem_append, List.mem_singleton] at ht
  rcases ht with rfl | ht | rfl
  · trivial
  · rcases mem_itemTokens ht with rfl | ⟨v, hv, ht⟩
    · trivial
    · exact h v hv t ht
  · trivial

theorem isWritable_record {members : List (String × Json)} (h : ∀ m ∈ members, m.2.IsWritable) :
    (record members).IsWritable := by
  intro t ht
  rw [record, tokens, List.mem_cons, List.mem_append, List.mem_singleton] at ht
  rcases ht with rfl | ht | rfl
  · trivial
  · rcases mem_memberTokens ht with rfl | rfl | ⟨m, hm, ht⟩
    · trivial
    · trivial
    · obtain ⟨n, hn, rfl⟩ := List.mem_map.mp hm
      rcases ht with rfl | ht
      · rfl
      · exact h n hn t ht
  · trivial

theorem readChars_of_spaced {s : List Char} {v : Json} (h : Spaced s v.tokens)
    (hv : v.IsWritable) : readChars s = .whole v := by
  have hnil : AreApart [] := trivial
  have hapart : AreApart (v.tokens ++ []) := areApart_tokens hnil (by simp) v
  have hrun : Reader.run {} (v.tokens ++ []) = (⟨.after v, []⟩, true) := run_tokens false [] [] v
  rw [List.append_nil] at hapart hrun
  simp only [readChars, lex_of_spaced h hv hapart, hrun, if_true]

/-- A document on one line is read back. -/
theorem read_compact {v : Json} (h : v.IsWritable) : read v.compact = .whole v := by
  rw [read, compact, String.toList_ofList]
  exact readChars_of_spaced (spaced_flatMap v.tokens) h

/-- An indented document is read back. -/
theorem read_pretty {v : Json} (h : v.IsWritable) : read v.pretty = .whole v := by
  have hspaced := spaced_prettyChars 0 .done v
  rw [List.append_nil, List.append_nil] at hspaced
  rw [read, pretty, String.toList_ofList]
  exact readChars_of_spaced hspaced h

end Json
end UrlFilter
