import RefHart.Assembly.Program
import RefHart.Text.Numeral

/-!
# Image and dump files

**Images** hold one byte in hexadecimal to a line. Blank lines and lines that start with `//` say
nothing. The assembler writes machine code in this form, each word under a comment with its source.

**Dumps** list the registers or the data memory after a run, one element to a line with its index,
so that two dumps can be compared line by line.
-/

namespace RefHart.Image

/-! ## Images -/

/-- One byte in capital hexadecimal digits. -/
def byteText (b : Byte) : Text := Text.toUpper (Numeral.hex 2 b.toNat)

/-- A text as a line of a file. -/
def line (t : Text) : Text := t ++ ['\n']

/-- The lines for one emitted word: its source in a comment, then its bytes. -/
def wordLines (l : ProgramLine) : List Text :=
  ("// " ++ l.source) :: l.word.bigBytes.map byteText

/-- The machine code of a program as an image. -/
def ofProgram (p : Program) : Text := (p.lines.flatMap wordLines).flatMap line

/-- A line of an image that holds no byte. -/
structure ByteError where
  /-- The number of the line, counted from 1. -/
  line : Nat
  /-- The trimmed line. -/
  text : Text
  deriving DecidableEq, Repr

/-- The wording of a refused line. -/
def ByteError.message (e : ByteError) : Text :=
  "line " ++ Numeral.decimal e.line ++ ": \x60" ++ e.text ++ "\x60 is not a hex byte"

/-- Whether a trimmed line says nothing. -/
def isRemark (t : Text) : Bool := t == [] || (Text.dropLeading? "//" t).isSome

/-- The byte that a trimmed line of at most two characters denotes. A plus sign before a single
digit is accepted. -/
def byte? (t : Text) : Option Byte :=
  if t.utf8Length ≤ 2 then (Numeral.unsigned? 16 t).map (BitVec.ofNat 8) else none

/-- The byte of a numbered line; none if the line says nothing. -/
def readLine (numbered : Text × Nat) : Except ByteError (Option Byte) :=
  let t := Text.trim numbered.1
  if isRemark t then .ok none
  else match byte? t with
    | some b => .ok (some b)
    | none => .error ⟨numbered.2, t⟩

/-- Reads an image. The first line that holds no byte is reported. -/
def read (t : Text) : Except ByteError (List Byte) :=
  (((Text.lines t).zipIdx 1).mapM readLine).map fun bytes => bytes.filterMap id

/-- The words of machine code; zeros complete the last one. -/
def words : List Byte → List Word
  | a :: b :: c :: d :: rest => Word.ofBigBytes [a, b, c, d] :: words rest
  | [] => []
  | tail => [Word.ofBigBytes (tail.rightpad 4 0)]

/-! ## Dumps -/

/-- One element with its index. -/
def dumpLine (width : Nat) (numbered : Nat × Nat) : Text :=
  "[" ++ Numeral.decimal numbered.2 ++ "] " ++ Numeral.hex width numbered.1

/-- The first lines of a register dump. -/
def registerHeader : List Text :=
  ["// Register File Contents with Index", "// Format: [Index] Data"]

/-- The first lines of a memory dump. -/
def memoryHeader : List Text :=
  ["// Data Memory Contents with Address", "// Format: [Address] Data"]

/-- The dump of a register file. -/
def dumpRegisters (registers : List Word) : Text :=
  (registerHeader ++ (registers.map BitVec.toNat).zipIdx.map (dumpLine 8)).flatMap line

/-- The dump of a data memory. -/
def dumpMemory (bytes : List Byte) : Text :=
  (memoryHeader ++ (bytes.map BitVec.toNat).zipIdx.map (dumpLine 2)).flatMap line

end RefHart.Image
