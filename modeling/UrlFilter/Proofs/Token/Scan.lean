import UrlFilter.Proofs.Token.Term

/-! Texts that their terms cover. A scan passes over what it cannot read, so the tokens of a text
may leave gaps. The sum of their lengths tells: it is the length of the text if, and only if, the
text is its terms written one after another, and then the scan finds just these terms. -/
namespace UrlFilter

/-- The text of terms written one after another. -/
def Lexeme.textOf : List Lexeme → List Char
  | [] => []
  | x :: xs => x.text ++ textOf xs

/-- Whether each of these is a term before the text of those behind it. The first of them may
lack a joining symbol if `first` holds. -/
def Lexeme.AreTerms (first : Bool) : List Lexeme → Prop
  | [] => True
  | x :: xs => x.IsTerm first (textOf xs) ∧ AreTerms false xs

/-- The number of bytes that the tokens cover. -/
def Token.covered : List Token → Nat
  | [] => 0
  | token :: rest => token.span.length + covered rest

/-- What the scanner promises of its tokens: the operators are spellings, and the joining symbols
are `&` and `|`. The first of them may lack a joining symbol if `first` holds. -/
def Token.AreScanned (first : Bool) : List Token → Prop
  | [] => True
  | token :: rest =>
    token.op ∈ Operator.spellings ∧ (first = true ∨ token.logic = "&" ∨ token.logic = "|") ∧
      AreScanned false rest

namespace Token

/-- A term at byte `offset`. -/
def ofLexeme (offset : Nat) (x : Lexeme) : Token :=
  { x with span := ⟨offset, offset + x.byteLength⟩ }

theorem length_span_ofLexeme (offset : Nat) (x : Lexeme) :
    (ofLexeme offset x).span.length = x.byteLength := by
  show offset + x.byteLength - offset = x.byteLength
  omega

theorem scanFrom_of_read? {offset : Nat} {s rest : List Char} {x : Lexeme}
    (h : Lexeme.read? (offset == 0) s = some (x, rest)) :
    scanFrom offset s = ofLexeme offset x :: scanFrom (offset + x.byteLength) rest := by
  rw [scanFrom]
  split
  · rename_i y tail hy
    rw [h] at hy
    obtain ⟨rfl, rfl⟩ : x = y ∧ rest = tail := by simpa using hy
    rfl
  · rename_i hy
    simp [h] at hy

theorem scanFrom_nil (offset : Nat) : scanFrom offset [] = [] := by
  rw [scanFrom]
  split
  · rename_i hx
    have := Lexeme.length_lt_of_read? hx
    simp at this
  · rfl

theorem scanFrom_of_read?_none {offset : Nat} {c : Char} {s : List Char}
    (h : Lexeme.read? (offset == 0) (c :: s) = none) :
    scanFrom offset (c :: s) = scanFrom (offset + c.utf8Size) s := by
  rw [scanFrom]
  split
  · rename_i hx
    simp [h] at hx
  · rfl

end Token

theorem Lexeme.byteLength_pos {x : Lexeme} (h : x.field ≠ "") : 0 < x.byteLength := by
  cases hf : x.field.toList with
  | nil => exact absurd (String.toList_inj.mp hf) h
  | cons c field =>
    have := c.utf8Size_pos
    simp only [byteLength, text, hf, Text.byteLength_append, Text.byteLength_cons]
    omega

namespace Token

/-- Behind a term no term may lack its joining symbol. -/
theorem offset_ne_zero {offset : Nat} {x : Lexeme} (h : x.field ≠ "") :
    (offset + x.byteLength == 0) = false := by
  have := Lexeme.byteLength_pos h
  simp only [beq_eq_false_iff_ne]
  omega

/-- A scan by the reader: the induction that the lemmas below share. -/
theorem scan_induction {motive : Nat → List Char → Prop} (nil : ∀ offset, motive offset [])
    (term : ∀ offset s x rest, Lexeme.read? (offset == 0) s = some (x, rest) →
      motive (offset + x.byteLength) rest → motive offset s)
    (skip : ∀ offset c s, Lexeme.read? (offset == 0) (c :: s) = none →
      motive (offset + c.utf8Size) s → motive offset (c :: s))
    (offset : Nat) (s : List Char) : motive offset s := by
  induction hn : s.length using Nat.strongRecOn generalizing offset s with
  | ind n ih =>
    cases hx : Lexeme.read? (offset == 0) s with
    | some r =>
      have hlt := Lexeme.length_lt_of_read? hx
      exact term offset s r.1 r.2 hx (ih r.2.length (by omega) _ _ rfl)
    | none =>
      cases s with
      | nil => exact nil offset
      | cons c s =>
        have hlt : s.length < n := by
          rw [← hn]
          exact Nat.lt_succ_self s.length
        exact skip offset c s hx (ih s.length hlt _ _ rfl)

theorem covered_scanFrom_le (offset : Nat) (s : List Char) :
    covered (scanFrom offset s) ≤ Text.byteLength s := by
  induction offset, s using scan_induction with
  | nil offset => rw [scanFrom_nil]; exact Nat.le_refl _
  | term offset s x rest hx ih =>
    obtain ⟨rfl, -⟩ := Lexeme.eq_append_of_read? hx
    rw [scanFrom_of_read? hx, covered, length_span_ofLexeme, Text.byteLength_append]
    exact Nat.add_le_add_left ih _
  | skip offset c s hx ih =>
    rw [scanFrom_of_read?_none hx, Text.byteLength_cons]
    omega

/-- A text whose tokens are as long as itself is their terms and nothing else. -/
theorem eq_textOf_of_covered {offset : Nat} {s : List Char}
    (h : covered (scanFrom offset s) = Text.byteLength s) :
    s = Lexeme.textOf ((scanFrom offset s).map toLexeme) ∧
      Lexeme.AreTerms (offset == 0) ((scanFrom offset s).map toLexeme) := by
  induction offset, s using scan_induction with
  | nil offset => rw [scanFrom_nil]; exact ⟨rfl, trivial⟩
  | term offset s x rest hx ih =>
    obtain ⟨hs, hterm, -⟩ := Lexeme.read?_eq_some_iff.mp hx
    subst hs
    rw [scanFrom_of_read? hx, covered, length_span_ofLexeme, Text.byteLength_append] at h
    -- the term covers its own bytes, so the rest of the sum must cover the rest of the text
    obtain ⟨hrest, hterms⟩ := ih (Nat.add_left_cancel h)
    rw [offset_ne_zero hterm.field_ne] at hterms
    rw [scanFrom_of_read? hx, List.map_cons, Lexeme.textOf, Lexeme.AreTerms]
    rw [← hrest]
    exact ⟨rfl, hterm, hterms⟩
  | skip offset c s hx ih =>
    -- a character that is passed over is missing from the sum
    have hle := covered_scanFrom_le (offset + c.utf8Size) s
    have hpos := c.utf8Size_pos
    rw [scanFrom_of_read?_none hx, Text.byteLength_cons] at h
    omega

/-- What stands behind a term in a text made of terms is the end or a joining symbol. -/
theorem stopsAt_textOf {xs : List Lexeme} (h : Lexeme.AreTerms false xs) {p : Char → Bool}
    (hand : p '&' = false) (hor : p '|' = false) : StopsAt p (Lexeme.textOf xs) := by
  cases xs with
  | nil => exact stopsAt_nil p
  | cons x xs =>
    rw [Lexeme.textOf, Lexeme.text_append]
    rcases h.1.logic with hl | hl | ⟨hf, -⟩
    · rw [hl]
      exact stopsAt_cons.mpr hand
    · rw [hl]
      exact stopsAt_cons.mpr hor
    · simp at hf

end Token

namespace Lexeme

@[simp] theorem textOf_append (xs ys : List Lexeme) :
    textOf (xs ++ ys) = textOf xs ++ textOf ys := by
  induction xs with
  | nil => rfl
  | cons x xs ih => rw [List.cons_append, textOf, textOf, ih, List.append_assoc]

variable {first : Bool} {xs ys : List Lexeme}

theorem AreTerms.weaken (h : AreTerms false xs) : AreTerms first xs := by
  cases xs with
  | nil => trivial
  | cons x xs => exact ⟨h.1.weaken, h.2⟩

/-- Terms stay terms before other terms. -/
theorem AreTerms.append (hx : AreTerms first xs) (hy : AreTerms false ys) :
    AreTerms first (xs ++ ys) := by
  induction xs generalizing first with
  | nil => exact hy.weaken
  | cons x xs ih =>
    have hrest := ih hx.2
    exact ⟨hx.1.of_stopsAt (Token.stopsAt_textOf hx.2 rfl rfl)
      (Token.stopsAt_textOf hrest rfl rfl), hrest⟩

/-- Terms stay terms whatever their parentheses are. -/
theorem AreTerms.of_bare (h : AreTerms first xs) (hbare : ys.map bare = xs.map bare) :
    AreTerms first ys := by
  induction xs generalizing first ys with
  | nil =>
    obtain rfl : ys = [] := List.map_eq_nil_iff.mp hbare
    trivial
  | cons x xs ih =>
    cases ys with
    | nil => cases hbare
    | cons y ys =>
      obtain ⟨hx, hxs⟩ := h
      obtain ⟨hy, hbare⟩ := List.cons.inj hbare
      have hys := ih hxs hbare
      exact ⟨hx.of_bare hy (Token.stopsAt_textOf hxs rfl rfl) (Token.stopsAt_textOf hys rfl rfl),
        hys⟩

/-- Terms stay terms where others between them are left out. -/
theorem AreTerms.sublist (hx : AreTerms first xs) (h : ys.Sublist xs) : AreTerms first ys := by
  induction h generalizing first with
  | slnil => trivial
  | cons x _ ih => exact (ih hx.2).weaken
  | cons_cons x _ ih =>
    have hrest := ih hx.2
    exact ⟨hx.1.of_stopsAt (Token.stopsAt_textOf hx.2 rfl rfl)
      (Token.stopsAt_textOf hrest rfl rfl), hrest⟩

end Lexeme

namespace Token

/-- The scan of a text made of terms finds these terms, one behind the other. -/
theorem scanFrom_textOf (offset : Nat) {xs : List Lexeme}
    (h : Lexeme.AreTerms (offset == 0) xs) :
    (scanFrom offset (Lexeme.textOf xs)).map toLexeme = xs ∧
      covered (scanFrom offset (Lexeme.textOf xs)) = Text.byteLength (Lexeme.textOf xs) := by
  induction xs generalizing offset with
  | nil => rw [Lexeme.textOf, scanFrom_nil]; exact ⟨rfl, rfl⟩
  | cons x xs ih =>
    obtain ⟨hterm, hterms⟩ := h
    have hx : Lexeme.read? (offset == 0) (Lexeme.textOf (x :: xs)) =
        some (x, Lexeme.textOf xs) :=
      Lexeme.read?_of_isTerm hterm (fun _ => stopsAt_textOf hterms rfl rfl)
        (stopsAt_textOf hterms rfl rfl)
    have hrest : Lexeme.AreTerms (offset + x.byteLength == 0) xs := by
      rw [offset_ne_zero hterm.field_ne]
      exact hterms
    obtain ⟨htokens, hcovered⟩ := ih _ hrest
    rw [scanFrom_of_read? hx, List.map_cons, htokens, covered, length_span_ofLexeme, hcovered,
      Lexeme.textOf, Text.byteLength_append]
    exact ⟨rfl, rfl⟩

theorem AreScanned.weaken {first : Bool} {tokens : List Token} (h : AreScanned false tokens) :
    AreScanned first tokens := by
  cases tokens with
  | nil => trivial
  | cons token rest => exact ⟨h.1, .inr (h.2.1.resolve_left (by simp)), h.2.2⟩

theorem areScanned_scanFrom (offset : Nat) (s : List Char) :
    AreScanned (offset == 0) (scanFrom offset s) := by
  induction offset, s using scan_induction with
  | nil offset => rw [scanFrom_nil]; trivial
  | term offset s x rest hx ih =>
    obtain ⟨-, hterm, -⟩ := Lexeme.read?_eq_some_iff.mp hx
    rw [offset_ne_zero hterm.field_ne] at ih
    rw [scanFrom_of_read? hx]
    refine ⟨hterm.op.mem, ?_, ih⟩
    rcases hterm.logic with hl | hl | ⟨hf, -⟩
    · exact .inr (.inl hl)
    · exact .inr (.inr hl)
    · exact .inl hf
  | skip offset c s hx ih =>
    have hpos := c.utf8Size_pos
    have hoffset : (offset + c.utf8Size == 0) = false := by
      simp only [beq_eq_false_iff_ne]
      omega
    rw [hoffset] at ih
    rw [scanFrom_of_read?_none hx]
    exact ih.weaken

theorem areScanned_scan (text : String) : AreScanned true (scan text) :=
  areScanned_scanFrom 0 text.toList

end Token
end UrlFilter
