/-! UTF-8 sizes and bytes of texts. A text is a list of characters here; `encode` gives its
bytes, and `decode` reads bytes back or says at which byte they stop being UTF-8. The reader
goes byte by byte and holds the ranges from which the next bytes must come, so it notices the
first byte that no character can have at its place. -/
namespace UrlFilter.Text

/-- The number of bytes that a text takes in UTF-8. -/
def byteLength : List Char → Nat
  | [] => 0
  | c :: cs => c.utf8Size + byteLength cs

@[simp] theorem byteLength_nil : byteLength [] = 0 := rfl

@[simp] theorem byteLength_cons (c : Char) (cs : List Char) :
    byteLength (c :: cs) = c.utf8Size + byteLength cs := rfl

@[simp] theorem byteLength_append (cs ds : List Char) :
    byteLength (cs ++ ds) = byteLength cs + byteLength ds := by
  induction cs with
  | nil => rw [List.nil_append, byteLength_nil, Nat.zero_add]
  | cons c cs ih => rw [List.cons_append, byteLength_cons, byteLength_cons, ih, Nat.add_assoc]

/-- The UTF-8 bytes of a text. -/
def encode (cs : List Char) : List UInt8 :=
  cs.flatMap String.utf8EncodeChar

@[simp] theorem encode_nil : encode [] = [] := rfl

@[simp] theorem encode_cons (c : Char) (cs : List Char) :
    encode (c :: cs) = String.utf8EncodeChar c ++ encode cs := rfl

@[simp] theorem encode_append (cs ds : List Char) :
    encode (cs ++ ds) = encode cs ++ encode ds := by
  simp [encode]

/-- Why bytes are not UTF-8. The index is that of the first byte which belongs to no
character: all bytes before it do. -/
inductive Utf8Fault where
  /-- The `length` bytes from `index` on start no character, whatever follows them. -/
  | invalid (length index : Nat)
  /-- The bytes from `index` on start a character and end before it does. -/
  | truncated (index : Nat)
  deriving DecidableEq, Repr

/-- The wording of a fault. -/
def Utf8Fault.message : Utf8Fault → String
  | .invalid length index =>
    "invalid utf-8 sequence of " ++ toString length ++ " bytes from index " ++ toString index
  | .truncated index => "incomplete utf-8 byte sequence from index " ++ toString index

/-- An inclusive range of bytes. -/
structure ByteRange where
  low : UInt8
  high : UInt8
  deriving DecidableEq, Repr

/-- Whether a byte lies in the range. -/
def ByteRange.contains (r : ByteRange) (b : UInt8) : Bool :=
  r.low ≤ b && b ≤ r.high

/-- The range of a continuation byte that the bytes before it do not narrow. -/
def continuation : ByteRange := ⟨0x80, 0xBF⟩

/-- What a first byte promises: the high bits of the code point, and the ranges of the bytes
that must follow. Narrowed second bytes keep out overlong forms, surrogates and code points
above U+10FFFF. -/
def lead? (b : UInt8) : Option (Nat × List ByteRange) :=
  if b ≤ 0x7F then some (b.toNat, [])
  else if b < 0xC2 then none
  else if b ≤ 0xDF then some (b.toNat % 32, [continuation])
  else if b = 0xE0 then some (b.toNat % 16, [⟨0xA0, 0xBF⟩, continuation])
  else if b = 0xED then some (b.toNat % 16, [⟨0x80, 0x9F⟩, continuation])
  else if b ≤ 0xEF then some (b.toNat % 16, [continuation, continuation])
  else if b = 0xF0 then some (b.toNat % 8, [⟨0x90, 0xBF⟩, continuation, continuation])
  else if b ≤ 0xF3 then some (b.toNat % 8, [continuation, continuation, continuation])
  else if b = 0xF4 then some (b.toNat % 8, [⟨0x80, 0x8F⟩, continuation, continuation])
  else none

/-- Reads bytes from the middle of a text. The character under construction starts at index
`start`, `taken` of its bytes are read and make up `bits`, and the next ones must come from
the ranges `owed`; with none owed a new character starts. -/
def decodeFrom (start taken bits : Nat) (owed : List ByteRange) :
    List UInt8 → Except Utf8Fault (List Char)
  | [] => if owed.isEmpty then .ok [] else .error (.truncated start)
  | b :: bytes =>
    match owed with
    | [] =>
      match lead? b with
      | none => .error (.invalid 1 start)
      | some (high, []) => (decodeFrom (start + 1) 0 0 [] bytes).map (Char.ofNat high :: ·)
      | some (high, r :: more) => decodeFrom start 1 high (r :: more) bytes
    | r :: more =>
      if r.contains b then
        let whole := bits * 64 + b.toNat % 64
        match more with
        | [] =>
          (decodeFrom (start + taken + 1) 0 0 [] bytes).map (Char.ofNat whole :: ·)
        | _ :: _ => decodeFrom start (taken + 1) whole more bytes
      else .error (.invalid taken start)

/-- The text that the bytes encode. -/
def decode (bytes : List UInt8) : Except Utf8Fault (List Char) :=
  decodeFrom 0 0 0 [] bytes

end UrlFilter.Text
