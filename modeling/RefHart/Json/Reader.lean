import RefHart.Json.Token

/-!
# Reading JSON documents

The tokens of a document are read one by one against a stack of the arrays and objects that are
still open. Reading is strict: no trailing commas, no comments, one value and nothing behind it.
-/

namespace RefHart.Json

/-- An array or object that is still open, with what it holds so far in reverse. -/
inductive Frame where
  | array (items : List Json)
  /-- An object and the key read last; either is none after half of a surrogate pair. -/
  | object (members : Option (List (Text × Json))) (key : Option Text)

/-- What may come next. -/
inductive Expectation where
  | value
  /-- The first item of an array, or its end. -/
  | valueOrClose
  | key
  /-- The first key of an object, or its end. -/
  | keyOrClose
  | colon
  /-- A comma or the end of the innermost array or object. -/
  | next
  /-- Nothing: the document is read. -/
  | done (v : Json)

/-- The state of reading a document. -/
structure Builder where
  frames : List Frame := []
  expectation : Expectation := .value

namespace Builder

/-- Adds a complete value to the innermost array or object. -/
def complete (frames : List Frame) (v : Json) : Builder :=
  match frames with
  | [] => ⟨[], .done v⟩
  | .array items :: rest => ⟨.array (v :: items) :: rest, .next⟩
  | .object (some members) (some key) :: rest =>
    ⟨.object (some ((key, v) :: members)) none :: rest, .next⟩
  | .object _ _ :: rest => ⟨.object none none :: rest, .next⟩

/-- Ends the innermost array. -/
def closeArray? : List Frame → Option Builder
  | .array items :: rest => some (complete rest (.array items.reverse))
  | _ => none

/-- Ends the innermost object. -/
def closeObject? : List Frame → Option Builder
  | .object (some members) _ :: rest => some (complete rest (.object members.reverse))
  | .object none _ :: rest => some (complete rest .unpaired)
  | _ => none

/-- Goes on after a comma. -/
def continue? : List Frame → Option Builder
  | .array items :: rest => some ⟨.array items :: rest, .value⟩
  | .object members key :: rest => some ⟨.object members key :: rest, .key⟩
  | [] => none

/-- Starts a value. -/
def startValue? (frames : List Frame) : Token → Option Builder
  | .openArray => some ⟨.array [] :: frames, .valueOrClose⟩
  | .openObject => some ⟨.object (some []) none :: frames, .keyOrClose⟩
  | .string (some s) => some (complete frames (.string s))
  | .string none => some (complete frames .unpaired)
  | .scalar v => some (complete frames v)
  | _ => none

/-- Starts a member of the innermost object. -/
def startMember? : List Frame → Token → Option Builder
  | .object members _ :: rest, .string key => some ⟨.object members key :: rest, .colon⟩
  | _, _ => none

/-- Reads one token. -/
def step (b : Builder) (token : Token) : Option Builder :=
  match b.expectation, token with
  | .value, _ => startValue? b.frames token
  | .valueOrClose, .closeArray => closeArray? b.frames
  | .valueOrClose, _ => startValue? b.frames token
  | .key, _ => startMember? b.frames token
  | .keyOrClose, .closeObject => closeObject? b.frames
  | .keyOrClose, _ => startMember? b.frames token
  | .colon, .colon => some ⟨b.frames, .value⟩
  | .next, .comma => continue? b.frames
  | .next, .closeArray => closeArray? b.frames
  | .next, .closeObject => closeObject? b.frames
  | _, _ => none

/-- The value of the whole document. -/
def finish (b : Builder) : Option Json :=
  match b.expectation with
  | .done v => some v
  | _ => none

end Builder

/-- Reads a document. -/
def ofText? (t : Text) : Option Json := do
  let tokens ← tokens? t
  let builder ← tokens.foldlM Builder.step {}
  builder.finish

/-! ## Records -/

/-- The members of a record with the given field names. In an object unknown members are passed over
and a field may stand once; an array gives the values of the first fields. -/
def fields? (names : List Text) : Json → Option (List (Text × Json))
  | .object members =>
    let known := members.filter fun member => names.contains member.1
    if known.Pairwise fun a b => a.1 ≠ b.1 then some known else none
  | .array items => if items.length ≤ names.length then some (names.zip items) else none
  | _ => none

/-- The value of a field under a reading; an absent field has its default. -/
def field? {α : Type} (fields : List (Text × Json)) (name : Text) (reading : Json → Option α)
    (default : α) : Option α :=
  match fields.lookup name with
  | some v => reading v
  | none => some default

/-- A truth value. -/
def bool? : Json → Option Bool
  | .bool b => some b
  | _ => none

/-- A natural number below 2^64, written in digits alone. -/
def natural? : Json → Option Nat
  | .number literal => (Numeral.natural? 10 literal).filter (· < 0x10000000000000000)
  | _ => none

/-- A string. -/
def string? : Json → Option Text
  | .string s => some s
  | _ => none

/-- The name of a choice: a string, or an object whose only member has that name and holds null. -/
def choice? : Json → Option Text
  | .string s => some s
  | .object [(name, .null)] => some name
  | _ => none

end RefHart.Json
