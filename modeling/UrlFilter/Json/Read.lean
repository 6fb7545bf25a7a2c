import UrlFilter.Json.Token

/-! Reading JSON. The reader goes through the tokens once and keeps a stack of the arrays and
objects that are open. Where a text stops being JSON, the values read so far are kept, so that
whoever goes through a document in order can still answer for what stands before the fault. -/
namespace UrlFilter

/-- What was read of a text. -/
inductive JsonReading where
  /-- The text is this document. -/
  | whole (v : Json)
  /-- The text is no document. The value is what stands before the fault: the value that holds
  it, without what follows, if such a value had begun or was complete. -/
  | broken (read : Option Json)
  deriving Repr

namespace JsonReading

/-- The document, if the text is one. -/
def toOption : JsonReading → Option Json
  | whole v => some v
  | broken _ => none

end JsonReading

namespace Json

/-- Something open that waits for a value. Items and members read so far stand last first. -/
inductive Frame where
  | array (items : List Json)
  /-- An object, and the name of the member whose value comes next. -/
  | object (members : List (Option String × Json)) (name : Option String)
  deriving Repr

/-- What a frame holds as far as it is read, when the value that it waits for is `inner`. -/
def Frame.close (inner : Option Json) : Frame → Json
  | .array items => .array (inner.toList ++ items).reverse
  | .object members name => .object ((inner.map (name, ·)).toList ++ members).reverse

/-- What the reader waits for. -/
inductive Phase where
  /-- A value; or the end of the array around it, if `first`. -/
  | value (first : Bool)
  /-- The name of a member; or the end of the object, if `first`. -/
  | name (members : List (Option String × Json)) (first : Bool)
  /-- The colon behind a name. -/
  | colon (members : List (Option String × Json)) (name : Option String)
  /-- What follows a value: a comma, the end of what is open, or nothing. -/
  | after (v : Json)
  deriving Repr

/-- The innermost value as far as it is read. -/
def Phase.innermost : Phase → Option Json
  | .value _ => none
  | .name members _ => some (.object members.reverse)
  | .colon members _ => some (.object members.reverse)
  | .after v => some v

/-- The state of the reader: what it waits for, and what is open, the innermost first. -/
structure Reader where
  phase : Phase := .value false
  stack : List Frame := []
  deriving Repr

namespace Reader

/-- The state after a value that the token is by itself. -/
def scalar? : JsonToken → Option Json
  | .null => some .null
  | .bool b => some (.bool b)
  | .number n => some (.number n)
  | .string text => some (.string text)
  | _ => none

/-- The state after one more token, unless the token is out of place. -/
def step? (r : Reader) (token : JsonToken) : Option Reader :=
  match r.phase, token, r.stack with
  | .value _, .openArray, stack => some ⟨.value true, .array [] :: stack⟩
  | .value _, .openObject, stack => some ⟨.name [] true, stack⟩
  | .value true, .closeArray, .array items :: stack => some ⟨.after (.array items.reverse), stack⟩
  | .value _, token, stack => (scalar? token).map fun v => ⟨.after v, stack⟩
  | .name members _, .string name, stack => some ⟨.colon members name, stack⟩
  | .name members true, .closeObject, stack => some ⟨.after (.object members.reverse), stack⟩
  | .colon members name, .colon, stack => some ⟨.value false, .object members name :: stack⟩
  | .after v, .comma, .array items :: stack => some ⟨.value false, .array (v :: items) :: stack⟩
  | .after v, .closeArray, .array items :: stack =>
    some ⟨.after (.array (v :: items).reverse), stack⟩
  | .after v, .comma, .object members name :: stack =>
    some ⟨.name ((name, v) :: members) false, stack⟩
  | .after v, .closeObject, .object members name :: stack =>
    some ⟨.after (.object ((name, v) :: members).reverse), stack⟩
  | _, _, _ => none

/-- The state after the tokens, and whether all of them are in place. -/
def run (r : Reader) : List JsonToken → Reader × Bool
  | [] => (r, true)
  | token :: rest =>
    match r.step? token with
    | some r => run r rest
    | none => (r, false)

/-- The outermost value as far as it is read. -/
def partialValue (r : Reader) : Option Json :=
  r.stack.foldl (fun inner frame => some (frame.close inner)) r.phase.innermost

end Reader

/-- Reads a text of characters. -/
def readChars (s : List Char) : JsonReading :=
  let (tokens, complete) := lex s
  match Reader.run {} tokens with
  | (⟨.after v, []⟩, true) => if complete then .whole v else .broken (some v)
  | (r, _) => .broken r.partialValue

/-- Reads a text. -/
def read (s : String) : JsonReading :=
  readChars s.toList

end Json
end UrlFilter
