import UrlFilter.Json.Token
import UrlFilter.Proofs.Token.Term

/-! Written tokens are read back. `Json.Spaced` says that a text is these tokens with blanks
between them; `Json.lex_of_spaced` reads it, provided no number runs into the token behind it. -/
namespace UrlFilter
namespace Json

/-! ## Strings -/

theorem hexDigit?_digitChar {n : Nat} (h : n < 16) :
    Text.hexDigit? (Nat.digitChar n) = some n := by
  revert n
  decide

theorem readCodes?_plain {c : Char} (hquote : c ≠ '"') (hbackslash : c ≠ '\\') (hlt : ¬ c < ' ')
    (s : List Char) :
    readCodes? (c :: s) = (readCodes? s).map fun r => (c.toNat :: r.1, r.2) := by
  rw [readCodes?, if_neg hlt]
  · exact hquote
  · exact fun _ _ _ _ _ h _ => hbackslash h
  · exact fun _ _ h _ => hbackslash h

theorem readCodes?_shortEscape {e c : Char} (h : shortEscape? e = some c) (s : List Char) :
    readCodes? ('\\' :: e :: s) = (readCodes? s).map fun r => (c.toNat :: r.1, r.2) := by
  rw [readCodes?, h]
  -- `u` starts an escape of another kind
  rintro a b c d rest rfl
  simp [shortEscape?] at h

theorem readCodes?_controlEscape {c : Char} (h : c < ' ') (s : List Char) :
    readCodes? (JsonToken.controlEscape c ++ s) =
      (readCodes? s).map fun r => (c.toNat :: r.1, r.2) := by
  have hc : c.toNat < 32 := h
  have hhigh := hexDigit?_digitChar (n := c.toNat / 16) (by omega)
  have hlow := hexDigit?_digitChar (n := c.toNat % 16) (by omega)
  have hzero : Text.hexDigit? '0' = some 0 := by decide
  have hcode : hexCode? '0' '0' (Nat.digitChar (c.toNat / 16)) (Nat.digitChar (c.toNat % 16)) =
      some c.toNat := by
    simp only [hexCode?, hzero, hhigh, hlow, Option.some.injEq]
    omega
  simp only [JsonToken.controlEscape, List.cons_append, List.nil_append, readCodes?, hcode]

theorem readCodes?_stringChar (c : Char) (s : List Char) :
    readCodes? (JsonToken.stringChar c ++ s) =
      (readCodes? s).map fun r => (c.toNat :: r.1, r.2) := by
  unfold JsonToken.stringChar
  -- quote, backslash and the five control characters with an escape of their own
  iterate 7
    split
    · subst_vars
      exact readCodes?_shortEscape rfl s
  split
  · rename_i h
    exact readCodes?_controlEscape h s
  · rename_i hquote hbackslash _ _ _ _ _ hlt
    exact readCodes?_plain hquote hbackslash hlt s

theorem readCodes?_flatMap (cs s : List Char) :
    readCodes? (cs.flatMap JsonToken.stringChar ++ '"' :: s) = some (cs.map Char.toNat, s) := by
  induction cs with
  | nil => rfl
  | cons c cs ih =>
    rw [List.flatMap_cons, List.append_assoc, readCodes?_stringChar, ih]
    rfl

/-- No character is half of a surrogate pair. -/
theorem isSurrogate_toNat (c : Char) :
    isHighSurrogate c.toNat = false ∧ isLowSurrogate c.toNat = false := by
  have hvalid : c.toNat < 0xD800 ∨ 0xDFFF < c.toNat ∧ c.toNat < 0x110000 := c.valid
  simp only [isHighSurrogate, isLowSurrogate, Bool.and_eq_false_iff, decide_eq_false_iff_not]
  omega

theorem joinSurrogates?_map_toNat (cs : List Char) :
    joinSurrogates? (cs.map Char.toNat) = some cs := by
  induction cs with
  | nil => rfl
  | cons c cs ih =>
    obtain ⟨hhigh, hlow⟩ := isSurrogate_toNat c
    cases cs with
    | nil => simp [joinSurrogates?, hhigh, hlow]
    | cons d cs =>
      rw [List.map_cons] at ih
      simp [joinSurrogates?, hhigh, hlow, ih]

/-- A text is read back from behind its opening quote. -/
theorem readString?_text (text : String) (s : List Char) :
    readString? (text.toList.flatMap JsonToken.stringChar ++ '"' :: s) = some (some text, s) := by
  simp [readString?, readCodes?_flatMap, joinSurrogates?_map_toNat]

/-! ## Numbers -/

/-- The characters with which a number could go on. -/
def continuesNumber (c : Char) : Bool :=
  Text.isDigit c || c == '.' || c == 'e' || c == 'E'

theorem stopsAt_isDigit {s : List Char} (h : StopsAt continuesNumber s) :
    StopsAt Text.isDigit s := by
  intro c hc
  have := h c hc
  simp only [continuesNumber, Bool.or_eq_false_iff] at this
  exact this.1.1.1

theorem readWhole?_toDigits (n : Nat) {s : List Char} (h : StopsAt Text.isDigit s) :
    readWhole? (Nat.toDigits 10 n ++ s) = some (n, s) := by
  have hdigits : ∀ c ∈ Nat.toDigits 10 n, Text.isDigit c = true :=
    fun _ => Text.isDigit_of_mem_toDigits
  unfold readWhole?
  rw [takeWhile_append_of_stopsAt hdigits h, dropWhile_append_of_stopsAt hdigits h]
  split
  · rename_i hnil
    exact absurd hnil Nat.toDigits_ne_nil
  · rename_i hzero
    cases Text.eq_nil_of_toDigits_eq_cons hzero
  · rw [Nat.ofDigitChars_ten_toDigits]

/-- The point and the digits behind it, as they are written. -/
def fractionText (fraction : List Char) : List Char :=
  if fraction.isEmpty then [] else '.' :: fraction

theorem readFraction?_fractionText {fraction s : List Char}
    (hdigits : ∀ c ∈ fraction, Text.isDigit c = true) (hs : StopsAt Text.isDigit s)
    (hpoint : StopsAt (· == '.') s) : readFraction? (fractionText fraction ++ s) =
      some (fraction, s) := by
  cases fraction with
  | nil =>
    show readFraction? s = some ([], s)
    unfold readFraction?
    split
    · simp [stopsAt_cons] at hpoint
    · rfl
  | cons c fraction =>
    show readFraction? ('.' :: (c :: fraction ++ s)) = some (c :: fraction, s)
    rw [readFraction?]
    rw [takeWhile_append_of_stopsAt hdigits hs, dropWhile_append_of_stopsAt hdigits hs]

theorem readSign_toDigits (n : Nat) (s : List Char) :
    readSign (Nat.toDigits 10 n ++ s) = (false, Nat.toDigits 10 n ++ s) := by
  cases hd : Nat.toDigits 10 n with
  | nil => exact absurd hd Nat.toDigits_ne_nil
  | cons c digits =>
    have hc : Text.isDigit c = true := Text.isDigit_of_mem_toDigits (n := n) (by simp [hd])
    rw [List.cons_append]
    unfold readSign
    split
    · simp_all [Text.isDigit]
    · simp_all [Text.isDigit]
    · rfl

theorem readSign_integerText (n : Int) (s : List Char) :
    readSign (JsonToken.integerText n ++ s) = (decide (n < 0), Nat.toDigits 10 n.natAbs ++ s) := by
  unfold JsonToken.integerText
  by_cases hn : n < 0
  · simp [hn, readSign]
  · simp [hn, readSign_toDigits]

/-- The exponent as it is written. -/
def exponentText : Option Int → List Char
  | none => []
  | some e => 'e' :: JsonToken.integerText e

theorem readExponent?_exponentText (exponent : Option Int) {s : List Char}
    (hs : StopsAt continuesNumber s) :
    readExponent? (exponentText exponent ++ s) = some (exponent, s) := by
  cases exponent with
  | none =>
    show readExponent? s = some (none, s)
    unfold readExponent?
    split
    · simp [stopsAt_cons, continuesNumber] at hs
    · simp [stopsAt_cons, continuesNumber] at hs
    · rfl
  | some e =>
    have hdigits : ∀ c ∈ Nat.toDigits 10 e.natAbs, Text.isDigit c = true :=
      fun _ => Text.isDigit_of_mem_toDigits
    show readExponent? ('e' :: (JsonToken.integerText e ++ s)) = some (some e, s)
    simp only [readExponent?]
    rw [readSign_integerText, takeWhile_append_of_stopsAt hdigits (stopsAt_isDigit hs),
      dropWhile_append_of_stopsAt hdigits (stopsAt_isDigit hs)]
    split
    · rename_i hnil
      exact absurd hnil Nat.toDigits_ne_nil
    · rw [Nat.ofDigitChars_ten_toDigits]
      congr 3
      by_cases he : e < 0
      · rw [if_pos (by simpa using he)]
        omega
      · rw [if_neg (by simpa using he)]
        omega

theorem stopsAt_exponentText {p : Char → Bool} (he : p 'e' = false) {s : List Char}
    (hs : StopsAt p s) (exponent : Option Int) : StopsAt p (exponentText exponent ++ s) := by
  cases exponent with
  | none => exact hs
  | some e => exact stopsAt_cons.mpr he

theorem stopsAt_fractionText {p : Char → Bool} (hp : p '.' = false) {s : List Char}
    (hs : StopsAt p s) (fraction : List Char) : StopsAt p (fractionText fraction ++ s) := by
  cases fraction with
  | nil => exact hs
  | cons c fraction => exact stopsAt_cons.mpr hp

theorem readMagnitude?_text (n : JsonNumber) {s : List Char}
    (hdigits : ∀ c ∈ n.fraction, Text.isDigit c = true) (hs : StopsAt continuesNumber s) :
    readMagnitude? n.negative (Nat.toDigits 10 n.whole ++
      (fractionText n.fraction ++ (exponentText n.exponent ++ s))) = some (n, s) := by
  have hpoint : StopsAt (· == '.') s := by
    intro c hc
    have := hs c hc
    simp only [continuesNumber, Bool.or_eq_false_iff] at this
    exact this.1.1.2
  have hdigitStop : StopsAt Text.isDigit (exponentText n.exponent ++ s) :=
    stopsAt_exponentText rfl (stopsAt_isDigit hs) _
  unfold readMagnitude?
  rw [readWhole?_toDigits n.whole (stopsAt_fractionText rfl hdigitStop _)]
  simp only [Option.bind_eq_bind, Option.bind_some]
  rw [readFraction?_fractionText hdigits hdigitStop (stopsAt_exponentText rfl hpoint _)]
  simp only [Option.bind_some]
  rw [readExponent?_exponentText n.exponent hs]
  rfl

theorem readToken?_of_isDigit {c : Char} (h : Text.isDigit c = true) (s : List Char) :
    readToken? c s = (readMagnitude? false (c :: s)).map fun r => (.number r.1, r.2) := by
  unfold readToken?
  split
  case h_12 => rfl
  all_goals exact absurd h (by decide)

end Json

/-! ## Tokens -/

namespace JsonToken

/-- Whether the token has a text of its own: a string is one, and what follows the point of a
number is digits. -/
def IsWritable : JsonToken → Prop
  | number n => ∀ c ∈ n.fraction, Text.isDigit c = true
  | string text => text.isSome
  | _ => True

def isNumber : JsonToken → Bool
  | number _ => true
  | _ => false

/-- Brackets, braces, commas and colons. -/
def isPunctuation : JsonToken → Bool
  | openArray | closeArray | openObject | closeObject | comma | colon => true
  | _ => false

theorem numberText_append (n : JsonNumber) (s : List Char) :
    numberText n ++ s = (if n.negative then ['-'] else []) ++ (Nat.toDigits 10 n.whole ++
      (Json.fractionText n.fraction ++ (Json.exponentText n.exponent ++ s))) := by
  simp only [numberText, List.append_assoc]
  rfl

/-- A token is read back from before a text that does not go on with its digits. -/
theorem readToken?_text {t : JsonToken} (ht : t.IsWritable) {rest : List Char}
    (hrest : t.isNumber = true → StopsAt Json.continuesNumber rest) :
    ∃ c s, t.text ++ rest = c :: s ∧ Json.isBlank c = false ∧
      Json.readToken? c s = some (t, rest) := by
  cases t with
  | number n =>
    have hread := Json.readMagnitude?_text n ht (hrest rfl)
    rw [text, numberText_append]
    generalize Json.fractionText n.fraction ++ (Json.exponentText n.exponent ++ rest) = tail
      at hread ⊢
    cases hn : n.negative with
    | true =>
      rw [hn] at hread
      refine ⟨'-', Nat.toDigits 10 n.whole ++ tail, rfl, rfl, ?_⟩
      rw [Json.readToken?, hread]
      rfl
    | false =>
      rw [hn] at hread
      cases hd : Nat.toDigits 10 n.whole with
      | nil => exact absurd hd Nat.toDigits_ne_nil
      | cons c digits =>
        have hc : Text.isDigit c = true :=
          Text.isDigit_of_mem_toDigits (n := n.whole) (by simp [hd])
        rw [hd, List.cons_append] at hread
        refine ⟨c, digits ++ tail, rfl, ?_, ?_⟩
        · cases hb : Json.isBlank c with
          | false => rfl
          | true =>
            simp only [Json.isBlank, Bool.or_eq_true, beq_iff_eq] at hb
            rcases hb with ((rfl | rfl) | rfl) | rfl <;> cases hc
        · rw [Json.readToken?_of_isDigit hc, hread]
          rfl
  | string text =>
    obtain ⟨s, rfl⟩ := Option.isSome_iff_exists.mp ht
    refine ⟨'"', s.toList.flatMap stringChar ++ '"' :: rest, by simp [JsonToken.text, stringText],
      rfl, ?_⟩
    rw [Json.readToken?, Json.readString?_text]
    rfl
  | bool b => cases b <;> exact ⟨_, _, rfl, rfl, rfl⟩
  | null => exact ⟨_, _, rfl, rfl, rfl⟩
  | openArray | closeArray | openObject | closeObject | comma | colon =>
    exact ⟨_, _, rfl, rfl, rfl⟩

end JsonToken

namespace Json

theorem lex_blank {c : Char} (h : isBlank c = true) (s : List Char) : lex (c :: s) = lex s := by
  rw [lex, if_pos h]

theorem lex_of_readToken? {c : Char} {s rest : List Char} {t : JsonToken}
    (hc : isBlank c = false) (h : readToken? c s = some (t, rest)) :
    lex (c :: s) = (t :: (lex rest).1, (lex rest).2) := by
  rw [lex, if_neg (by simp [hc])]
  split
  · rename_i hnone
    simp [h] at hnone
  · rename_i t' rest' hsome
    rw [h] at hsome
    simp only [Option.some.injEq, Prod.mk.injEq] at hsome
    obtain ⟨rfl, rfl⟩ := hsome
    rfl

/-- The text is these tokens, with blanks between them. -/
inductive Spaced : List Char → List JsonToken → Prop where
  | done : Spaced [] []
  | blank {c : Char} {s : List Char} {ts : List JsonToken} (h : isBlank c = true)
      (rest : Spaced s ts) : Spaced (c :: s) ts
  | token (t : JsonToken) {s : List Char} {ts : List JsonToken} (rest : Spaced s ts) :
      Spaced (t.text ++ s) (t :: ts)

/-- Behind each number stands punctuation or nothing. -/
def AreApart : List JsonToken → Prop
  | [] => True
  | t :: ts => (t.isNumber = true → ∀ u ∈ ts.head?, u.isPunctuation = true) ∧ AreApart ts

theorem Spaced.blanks {s : List Char} {ts : List JsonToken} (h : Spaced s ts) {cs : List Char}
    (hcs : ∀ c ∈ cs, isBlank c = true) : Spaced (cs ++ s) ts := by
  induction cs with
  | nil => exact h
  | cons c cs ih => exact .blank (hcs c (by simp)) (ih fun d hd => hcs d (by simp [hd]))

/-- Tokens without blanks between them. -/
theorem spaced_flatMap (ts : List JsonToken) : Spaced (ts.flatMap JsonToken.text) ts := by
  induction ts with
  | nil => exact .done
  | cons t ts ih => exact .token t ih

theorem Spaced.stopsAt {s : List Char} {ts : List JsonToken} (h : Spaced s ts)
    (hts : ∀ u ∈ ts.head?, u.isPunctuation = true) : StopsAt continuesNumber s := by
  cases h with
  | done => exact stopsAt_nil _
  | blank hc =>
    rw [stopsAt_cons]
    simp only [isBlank, Bool.or_eq_true, beq_iff_eq] at hc
    rcases hc with ((rfl | rfl) | rfl) | rfl <;> decide
  | token t =>
    have ht := hts t (by simp)
    cases t <;> simp only [JsonToken.isPunctuation, Bool.false_eq_true] at ht <;>
      exact stopsAt_cons.mpr (by decide)

/-- Tokens that are written apart from each other are read back. -/
theorem lex_of_spaced {s : List Char} {ts : List JsonToken} (h : Spaced s ts)
    (hts : ∀ t ∈ ts, t.IsWritable) (hapart : AreApart ts) : lex s = (ts, true) := by
  induction h with
  | done => rw [lex]
  | blank hc rest ih => rw [lex_blank hc, ih hts hapart]
  | token t rest ih =>
    obtain ⟨c, s, htext, hc, hread⟩ := JsonToken.readToken?_text (hts t (by simp))
      fun hn => rest.stopsAt (hapart.1 hn)
    rw [htext, lex_of_readToken? hc hread, ih (fun u hu => hts u (by simp [hu])) hapart.2]

end Json
end UrlFilter
