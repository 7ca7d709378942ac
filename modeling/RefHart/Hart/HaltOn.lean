import RefHart.Text.Split
import RefHart.Text.Numeral
import RefHart.Word

/-!
# Halting system instructions

The set of system instructions that stop a run, kept as a byte of flags. Bits without a name are
kept, too, and mean nothing.

In text the flags are names or `0x` hexadecimal bytes between bars, as in `ECALL | 0x8`; a blank
text is the empty set.
-/

namespace RefHart

/-- The system instructions that stop a run. -/
structure HaltOn where
  bits : Byte
  deriving DecidableEq, Repr

namespace HaltOn

/-- Environment calls. -/
def ecall : HaltOn := ⟨1⟩

/-- Breakpoints. -/
def ebreak : HaltOn := ⟨2⟩

/-- CSR accesses. -/
def csr : HaltOn := ⟨4⟩

/-- Every system instruction. -/
def all : HaltOn := ⟨7⟩

/-- Whether all flags of `flags` are set. -/
def contains (h flags : HaltOn) : Bool := h.bits &&& flags.bits == flags.bits

/-- The named flags, in the order in which they are written. -/
def named : List (Text × HaltOn) := [("ECALL", ecall), ("EBREAK", ebreak), ("CSR", csr)]

/-- The flags of one part between bars: a name, or a byte in hexadecimal. -/
def ofPart? (part : Text) : Option HaltOn :=
  match Text.dropLeading? "0x" part with
  | some digits =>
    ((Numeral.unsigned? 16 digits).filter (· < 256)).map fun n => ⟨BitVec.ofNat 8 n⟩
  | none => named.lookup part

/-- Reads a set of flags. -/
def ofText? (t : Text) : Option HaltOn :=
  if Text.trim t = [] then some ⟨0⟩
  else
    ((Text.splitOn (· == '|') t).mapM fun part => ofPart? (Text.trim part)).map fun parts =>
      ⟨parts.foldl (fun bits part => bits ||| part.bits) 0⟩

/-- The bits that have no name. -/
def unnamed (h : HaltOn) : Byte := h.bits &&& ~~~all.bits

/-- The text of a set of flags: the names, then the unnamed bits if there are any. -/
def text (h : HaltOn) : Text :=
  let names := (named.filter fun entry => h.contains entry.2).map (·.1)
  let rest := if h.unnamed = 0 then [] else [Numeral.markedHex 1 h.unnamed.toNat]
  [' ', '|', ' '].intercalate (names ++ rest)

end HaltOn

end RefHart
