import RefHart.Assembly.Encoding

/-!
# Reading assembly source

**A line** may define a label and may hold an instruction: `name: body // comment`. Comments go
first, then the text before the first colon is the label.

**Slots.** A body takes one slot of four bytes if its first token is a mnemonic. After a label every
nonempty body takes one, also one that cannot be understood or that holds only commas; without a
label such a body is refused and takes none.

**Labels** stand for the address of the next slot. The last definition of a name counts.
-/

namespace RefHart

/-! ## Lines -/

/-- A line that holds more than blanks and a comment. -/
structure Statement where
  label? : Option Text
  /-- What follows the label, trimmed. -/
  body : Text
  /-- The text that listings show for the body. -/
  echo : Text
  deriving DecidableEq, Repr

namespace Statement

/-- Reads a trimmed line. -/
def ofTrimmed? (line : Text) : Option Statement :=
  let code := Text.trim (Text.beforeComment line)
  if code = [] then none
  else match Text.cutAt? ':' code with
    | some (name, body) => some ⟨some (Text.trim name), Text.trim body, Text.trim body⟩
    | none => some ⟨none, code, line⟩

/-- The first token of the body and the operands behind it, if the body takes a slot. -/
def content? (s : Statement) : Option (Text × List Text) :=
  match Text.tokens s.body with
  | head :: operands => some (head, operands)
  | [] => if s.label?.isSome ∧ s.body ≠ [] then some (s.body, []) else none

end Statement

/-! ## Slots -/

/-- Four bytes of the program, before encoding. -/
structure Slot where
  /-- The number of the source line, counted from 1. -/
  line : Nat
  address : Word
  echo : Text
  head : Text
  /-- The mnemonic that `head` names, if it names one. -/
  mnemonic? : Option Mnemonic
  operands : List Text
  deriving DecidableEq, Repr

/-- A label that is defined again. -/
structure Redefinition where
  line : Nat
  name : Text
  previous : Word
  address : Word
  deriving DecidableEq, Repr

/-- What is known of a source after some of its lines. -/
structure Source where
  /-- The address of the next slot. -/
  address : Word := 0
  labels : LabelTable := ∅
  slots : Array Slot := #[]
  diagnostics : Array Diagnostic := #[]
  redefinitions : Array Redefinition := #[]

namespace Source

/-- Records a label of the given line. -/
def define (s : Source) (line : Nat) (text name : Text) : Source :=
  if name = [] then { s with diagnostics := s.diagnostics.push ⟨line, text, .emptyLabel⟩ }
  else
    let labels := s.labels.insert name s.address
    match s.labels[name]? with
    | none => { s with labels }
    | some previous =>
      { s with
        labels
        diagnostics := s.diagnostics.push ⟨line, text, .duplicateLabel name previous⟩
        redefinitions := s.redefinitions.push ⟨line, name, previous, s.address⟩ }

/-- Records the body of a statement. -/
def emit (s : Source) (line : Nat) (text : Text) (st : Statement) : Source :=
  match st.content? with
  | none => s
  | some (head, operands) =>
    let mnemonic? := Mnemonic.ofName? head
    if mnemonic? = none ∧ st.label? = none then
      { s with diagnostics := s.diagnostics.push ⟨line, text, .unknownMnemonic head⟩ }
    else
      { s with
        address := s.address + 4
        slots := s.slots.push ⟨line, s.address, st.echo, head, mnemonic?, operands⟩ }

/-- Reads the next line, given with its number. -/
def addLine (s : Source) (numbered : Text × Nat) : Source :=
  let text := Text.trim numbered.1
  match Statement.ofTrimmed? text with
  | none => s
  | some st =>
    let labelled := match st.label? with
      | some name => s.define numbered.2 text name
      | none => s
    labelled.emit numbered.2 text st

/-- Reads a whole source. -/
def ofText (t : Text) : Source :=
  ((Text.lines t).zipIdx 1).foldl addLine {}

end Source

/-- The addresses of the labels of a source. -/
def resolveLabels (t : Text) : LabelTable := (Source.ofText t).labels

end RefHart
