import RefHart.Assembly.Source
import RefHart.Bytes

/-!
# Programs

Assembling takes two passes: the first gives every slot its address and collects the labels, the
second encodes the slots against all labels of the source, so that a label may be used before it is
defined. The diagnostics of both passes are merged in the order of the lines.
-/

namespace RefHart

/-- One emitted word. -/
structure ProgramLine where
  line : Nat
  address : Word
  word : Word
  source : Text
  deriving DecidableEq, Repr

/-- An assembled source. -/
structure Program where
  lines : List ProgramLine
  labels : LabelTable
  diagnostics : List Diagnostic
  redefinitions : List Redefinition

/-- The word of a slot; a slot without a mnemonic is the word 0 and noted. -/
def Slot.encode (s : Slot) (labels : LabelTable) : Noted Word :=
  match s.mnemonic? with
  | some m => RefHart.encode m s.operands labels s.address
  | none => ⟨0, [.unknownMnemonic s.head]⟩

/-- The emitted word of a slot. -/
def Slot.programLine (s : Slot) (labels : LabelTable) : ProgramLine :=
  ⟨s.line, s.address, (s.encode labels).value, s.echo⟩

/-- The problems that encoding a slot brings up. -/
def Slot.diagnostics (s : Slot) (labels : LabelTable) : List Diagnostic :=
  (s.encode labels).errors.map fun e => ⟨s.line, s.echo, e⟩

/-- Encodes the slots of a source. -/
def Source.assemble (s : Source) : Program :=
  let slots := s.slots.toList
  { lines := slots.map (·.programLine s.labels)
    labels := s.labels
    diagnostics :=
      (s.diagnostics.toList ++ slots.flatMap (·.diagnostics s.labels)).mergeSort
        fun a b => a.line ≤ b.line
    redefinitions := s.redefinitions.toList }

/-- Assembles a source text. -/
def assemble (t : Text) : Program := (Source.ofText t).assemble

namespace Program

/-- The words in the order of their addresses. -/
def words (p : Program) : List Word := p.lines.map (·.word)

/-- The machine code, the most significant byte of each word first. -/
def bytes (p : Program) : List Byte := p.words.flatMap Word.bigBytes

/-- The diagnostics that are errors. -/
def errors (p : Program) : List Diagnostic := p.diagnostics.filter (·.severity == .error)

/-- Whether some line has an error. -/
def hasErrors (p : Program) : Bool := !p.errors.isEmpty

/-- The words of a program without errors, or else all diagnostics. -/
def result (p : Program) : Except (List Diagnostic) (List Word) :=
  if p.hasErrors then .error p.diagnostics else .ok p.words

end Program

end RefHart
