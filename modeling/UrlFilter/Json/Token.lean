import UrlFilter.Json
import UrlFilter.Text.Digit

/-! The tokens of JSON texts. `Json.lex` reads as many tokens as it can and says whether the
text goes on after the last of them with something that is no token; `JsonToken.text` writes a
token. Blanks are the space, the tab, the line feed and the carriage return. -/
namespace UrlFilter

/-- A token of a JSON text. -/
inductive JsonToken where
  | openArray
  | closeArray
  | openObject
  | closeObject
  | comma
  | colon
  | null
  | bool (b : Bool)
  | number (n : JsonNumber)
  | string (text : Option String)
  deriving DecidableEq, Repr

namespace Json

/-- The characters between tokens. -/
def isBlank (c : Char) : Bool :=
  c == ' ' || c == '\t' || c == '\n' || c == '\r'

/-- The code that four hexadecimal digits denote. -/
def hexCode? (a b c d : Char) : Option Nat :=
  match Text.hexDigit? a, Text.hexDigit? b, Text.hexDigit? c, Text.hexDigit? d with
  | some a, some b, some c, some d => some (((a * 16 + b) * 16 + c) * 16 + d)
  | _, _, _, _ => none

/-- The code of the character that stands after a backslash for another one. -/
def shortEscape? : Char → Option Char
  | '"' => some '"'
  | '\\' => some '\\'
  | '/' => some '/'
  | 'b' => some '\x08'
  | 'f' => some '\x0c'
  | 'n' => some '\n'
  | 'r' => some '\r'
  | 't' => some '\t'
  | _ => none

/-- Reads a string from behind its opening quote: the codes of its characters and escapes, and
the rest of the text. Characters below the space must be escaped. -/
def readCodes? : List Char → Option (List Nat × List Char)
  | '"' :: rest => some ([], rest)
  | '\\' :: 'u' :: a :: b :: c :: d :: rest =>
    match hexCode? a b c d with
    | some code => (readCodes? rest).map fun r => (code :: r.1, r.2)
    | none => none
  | '\\' :: e :: rest =>
    match shortEscape? e with
    | some c => (readCodes? rest).map fun r => (c.toNat :: r.1, r.2)
    | none => none
  | c :: rest =>
    if c < ' ' then none else (readCodes? rest).map fun r => (c.toNat :: r.1, r.2)
  | [] => none

/-- The code is the first half of a surrogate pair. -/
def isHighSurrogate (code : Nat) : Bool := 0xD800 ≤ code && code < 0xDC00

/-- The code is the second half of a surrogate pair. -/
def isLowSurrogate (code : Nat) : Bool := 0xDC00 ≤ code && code < 0xE000

/-- The characters of a list of codes, two halves of a surrogate pair making one. A half
without the other has no character. -/
def joinSurrogates? : List Nat → Option (List Char)
  | [] => some []
  | [code] =>
    if isHighSurrogate code || isLowSurrogate code then none else some [Char.ofNat code]
  | code :: next :: rest =>
    if isHighSurrogate code then
      if isLowSurrogate next then
        (joinSurrogates? rest).map
          (Char.ofNat (0x10000 + (code - 0xD800) * 0x400 + (next - 0xDC00)) :: ·)
      else none
    else if isLowSurrogate code then none
    else (joinSurrogates? (next :: rest)).map (Char.ofNat code :: ·)

/-- Reads a string from behind its opening quote. -/
def readString? (s : List Char) : Option (Option String × List Char) :=
  (readCodes? s).map fun r => ((joinSurrogates? r.1).map String.ofList, r.2)

/-- Reads digits before the point: a zero alone, or digits that start with another one. -/
def readWhole? (s : List Char) : Option (Nat × List Char) :=
  match s.takeWhile Text.isDigit with
  | [] => none
  | '0' :: _ :: _ => none
  | digits => some (Nat.ofDigitChars 10 digits 0, s.dropWhile Text.isDigit)

/-- Reads a point and digits, if there is a point. -/
def readFraction? : List Char → Option (List Char × List Char)
  | '.' :: s =>
    match s.takeWhile Text.isDigit with
    | [] => none
    | digits => some (digits, s.dropWhile Text.isDigit)
  | s => some ([], s)

/-- Reads a sign, if there is one: whether it is a minus, and the rest. -/
def readSign : List Char → Bool × List Char
  | '-' :: s => (true, s)
  | '+' :: s => (false, s)
  | s => (false, s)

/-- Reads an exponent, if there is one. -/
def readExponent? : List Char → Option (Option Int × List Char)
  | 'e' :: s | 'E' :: s =>
    let (negative, s) := readSign s
    match s.takeWhile Text.isDigit with
    | [] => none
    | digits =>
      let n : Int := Nat.ofDigitChars 10 digits 0
      some (some (if negative then -n else n), s.dropWhile Text.isDigit)
  | s => some (none, s)

/-- Reads a number without its sign. -/
def readMagnitude? (negative : Bool) (s : List Char) : Option (JsonNumber × List Char) := do
  let (whole, s) ← readWhole? s
  let (fraction, s) ← readFraction? s
  let (exponent, s) ← readExponent? s
  return ({ negative, whole, fraction, exponent }, s)

/-- Reads the token that starts with the character `c`, which `s` follows. -/
def readToken? (c : Char) (s : List Char) : Option (JsonToken × List Char) :=
  match c, s with
  | '[', s => some (.openArray, s)
  | ']', s => some (.closeArray, s)
  | '\x7b', s => some (.openObject, s)
  | '\x7d', s => some (.closeObject, s)
  | ',', s => some (.comma, s)
  | ':', s => some (.colon, s)
  | 'n', 'u' :: 'l' :: 'l' :: s => some (.null, s)
  | 't', 'r' :: 'u' :: 'e' :: s => some (.bool true, s)
  | 'f', 'a' :: 'l' :: 's' :: 'e' :: s => some (.bool false, s)
  | '"', s => (readString? s).map fun r => (.string r.1, r.2)
  | '-', s => (readMagnitude? true s).map fun r => (.number r.1, r.2)
  | c, s => (readMagnitude? false (c :: s)).map fun r => (.number r.1, r.2)

theorem length_dropWhile_le (p : Char → Bool) (s : List Char) :
    (s.dropWhile p).length ≤ s.length :=
  (List.dropWhile_sublist p).length_le

theorem length_lt_of_readCodes? {s rest : List Char} {codes : List Nat}
    (h : readCodes? s = some (codes, rest)) : rest.length < s.length := by
  fun_induction readCodes? s generalizing codes rest with
  | case1 r => simp at h; simp [← h.2]
  | case2 a b c d r code hc ih =>
    obtain ⟨⟨cs, r'⟩, hr, he⟩ := Option.map_eq_some_iff.mp h
    have := ih hr
    simp at he
    simp only [← he.2, List.length_cons]
    omega
  | case3 => simp at h
  | case4 e r _ c hc ih =>
    obtain ⟨⟨cs, r'⟩, hr, he⟩ := Option.map_eq_some_iff.mp h
    have := ih hr
    simp at he
    simp only [← he.2, List.length_cons]
    omega
  | case5 => simp at h
  | case6 => simp at h
  | case7 c r _ _ _ hc ih =>
    obtain ⟨⟨cs, r'⟩, hr, he⟩ := Option.map_eq_some_iff.mp h
    have := ih hr
    simp at he
    simp only [← he.2, List.length_cons]
    omega
  | case8 => simp at h

theorem length_lt_of_readMagnitude? {negative : Bool} {s rest : List Char} {n : JsonNumber}
    (h : readMagnitude? negative s = some (n, rest)) : rest.length < s.length := by
  unfold readMagnitude? at h
  simp only [Option.bind_eq_bind, Option.bind_eq_some_iff, Prod.exists] at h
  obtain ⟨whole, s₁, hw, fraction, s₂, hf, exponent, s₃, he, hr⟩ := h
  simp only [Option.pure_def, Option.some.injEq, Prod.mk.injEq] at hr
  obtain ⟨-, rfl⟩ := hr
  have h₁ : s₁.length < s.length := by
    unfold readWhole? at hw
    split at hw
    · simp at hw
    · simp at hw
    · rename_i hne _
      simp only [Option.some.injEq, Prod.mk.injEq] at hw
      obtain ⟨-, rfl⟩ := hw
      have hlen := congrArg List.length
        (List.takeWhile_append_dropWhile (p := Text.isDigit) (l := s))
      rw [List.length_append] at hlen
      have := List.length_pos_iff.mpr hne
      omega
  have h₂ : s₂.length ≤ s₁.length := by
    unfold readFraction? at hf
    split at hf
    · rename_i t
      split at hf
      · simp at hf
      · simp only [Option.some.injEq, Prod.mk.injEq] at hf
        have := length_dropWhile_le Text.isDigit t
        simp only [← hf.2, List.length_cons]
        omega
    · simp only [Option.some.injEq, Prod.mk.injEq] at hf
      exact Nat.le_of_eq (congrArg _ hf.2.symm)
  have hsign (t : List Char) : (readSign t).2.length ≤ t.length := by
    unfold readSign
    split <;> simp
  have h₃ : s₃.length ≤ s₂.length := by
    unfold readExponent? at he
    split at he
    all_goals first
      | (rename_i t
         have := hsign t
         have := length_dropWhile_le Text.isDigit (readSign t).2
         simp only at he
         split at he
         · simp at he
         · simp only [Option.some.injEq, Prod.mk.injEq] at he
           simp only [← he.2, List.length_cons]
           omega)
      | (simp only [Option.some.injEq, Prod.mk.injEq] at he
         exact Nat.le_of_eq (congrArg _ he.2.symm))
  omega

theorem length_le_of_readToken? {c : Char} {s rest : List Char} {t : JsonToken}
    (h : readToken? c s = some (t, rest)) : rest.length ≤ s.length := by
  unfold readToken? at h
  split at h
  case h_10 =>
    obtain ⟨⟨text, r⟩, hr, he⟩ := Option.map_eq_some_iff.mp h
    obtain ⟨⟨codes, r'⟩, hc, hr⟩ := Option.map_eq_some_iff.mp hr
    have := length_lt_of_readCodes? hc
    simp only [Prod.mk.injEq] at he hr
    rw [← he.2, ← hr.2]
    omega
  case h_11 =>
    obtain ⟨⟨n, r⟩, hr, he⟩ := Option.map_eq_some_iff.mp h
    have := length_lt_of_readMagnitude? hr
    simp only [Prod.mk.injEq] at he
    rw [← he.2]
    omega
  case h_12 =>
    obtain ⟨⟨n, r⟩, hr, he⟩ := Option.map_eq_some_iff.mp h
    have := length_lt_of_readMagnitude? hr
    simp only [Prod.mk.injEq] at he
    simp only [List.length_cons] at this
    rw [← he.2]
    omega
  all_goals
    simp only [Option.some.injEq, Prod.mk.injEq] at h
    simp only [← h.2, List.length_cons]
    omega

/-- The tokens of a text as far as it can be read, and whether it can be read to its end. -/
def lex : List Char → List JsonToken × Bool
  | [] => ([], true)
  | c :: s =>
    if isBlank c then lex s
    else
      match _h : readToken? c s with
      | none => ([], false)
      | some (token, rest) =>
        let (tokens, complete) := lex rest
        (token :: tokens, complete)
termination_by s => s.length
decreasing_by
  · simp
  · have := length_le_of_readToken? _h
    simp only [List.length_cons]
    omega

end Json

namespace JsonToken

/-- The escape of a character below the space that has no shorter one. -/
def controlEscape (c : Char) : List Char :=
  ['\\', 'u', '0', '0'] ++ [Nat.digitChar (c.toNat / 16), Nat.digitChar (c.toNat % 16)]

/-- A character as it stands in a string. -/
def stringChar (c : Char) : List Char :=
  if c = '"' then ['\\', '"']
  else if c = '\\' then ['\\', '\\']
  else if c = '\x08' then ['\\', 'b']
  else if c = '\x0c' then ['\\', 'f']
  else if c = '\n' then ['\\', 'n']
  else if c = '\r' then ['\\', 'r']
  else if c = '\t' then ['\\', 't']
  else if c < ' ' then controlEscape c
  else [c]

/-- A text between quotes. A string without a text is written as an empty one. -/
def stringText (text : Option String) : List Char :=
  '"' :: (text.getD "").toList.flatMap stringChar ++ ['"']

/-- An integer in decimal digits. -/
def integerText (n : Int) : List Char :=
  (if n < 0 then ['-'] else []) ++ Nat.toDigits 10 n.natAbs

/-- A number by its parts. -/
def numberText (n : JsonNumber) : List Char :=
  (if n.negative then ['-'] else []) ++ Nat.toDigits 10 n.whole ++
    (if n.fraction.isEmpty then [] else '.' :: n.fraction) ++
    match n.exponent with
    | none => []
    | some e => 'e' :: integerText e

/-- A token as it is written. -/
def text : JsonToken → List Char
  | openArray => ['[']
  | closeArray => [']']
  | openObject => ['\x7b']
  | closeObject => ['\x7d']
  | comma => [',']
  | colon => [':']
  | null => ['n', 'u', 'l', 'l']
  | bool true => ['t', 'r', 'u', 'e']
  | bool false => ['f', 'a', 'l', 's', 'e']
  | number n => numberText n
  | string text => stringText text

end JsonToken
end UrlFilter
