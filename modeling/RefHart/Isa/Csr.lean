import RefHart.Text.Numeral

/-!
# Control and status registers

The CSRs that have a name in assembly text, and the operand tokens for a CSR address: a name, or a
decimal or `0x` hexadecimal number of at most twelve bits without a sign.
-/

namespace RefHart.Csr

/-- The named CSRs with their addresses. -/
def named : List (Text × Nat) :=
  [("mstatus", 0x300), ("mtvec", 0x305), ("mepc", 0x341), ("mcause", 0x342),
   ("rdcycle", 0xC00), ("rdcycleh", 0xC80), ("rdinstret", 0xC02), ("rdinstreth", 0xC82)]

/-- The address of the CSR with the given name, in any ASCII letter case. -/
def ofName? (token : Text) : Option Nat :=
  (named.find? fun entry => entry.1 == token.toLower).map (·.2)

/-- The number that a token denotes: hexadecimal digits after `0x`, else decimal digits. -/
def number? (token : Text) : Option Nat :=
  match Numeral.afterHexMark? token with
  | some digits => Numeral.natural? 16 digits
  | none => Numeral.natural? 10 token

/-- The CSR address that a token denotes. -/
def ofToken? (token : Text) : Option Nat :=
  match ofName? token with
  | some address => some address
  | none => (number? token).filter (· ≤ 0xFFF)

/-- The name of the CSR at an address. -/
def name? (address : Nat) : Option Text :=
  (named.find? fun entry => entry.2 == address).map (·.1)

/-- The text of a CSR operand: its name, or else its address in hexadecimal. -/
def text (address : Nat) : Text :=
  (name? address).getD (Numeral.markedHex 3 address)

end RefHart.Csr
