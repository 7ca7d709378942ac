import Std.Data.TreeMap
import RefHart.Assembly.Diagnostic
import RefHart.Assembly.Operand
import RefHart.Isa.Csr
import RefHart.Isa.Packing

/-!
# Encoding an instruction

`encode` turns a mnemonic and its operand tokens into a word. It always gives one: an operand that
cannot be read counts as 0 and is noted, and an immediate that does not fit is noted and cut down to
the bits of its field.

**Labels.** An immediate is first looked up among the labels, where it stands for the distance from
the instruction to the label; only then is it read as a literal.

**Pseudo-branches** exchange their first two operands and are encoded as their canonical branch.
-/

namespace RefHart

/-- Label names with their addresses, in the order of their characters' code points. -/
abbrev LabelTable := Std.TreeMap Text Word

/-- A value together with the problems noted on the way to it. -/
structure Noted (α : Type) where
  value : α
  errors : List AssemblyError

namespace Noted

instance : Monad Noted where
  pure a := ⟨a, []⟩
  bind x f := ⟨(f x.value).value, x.errors ++ (f x.value).errors⟩

/-- Notes a problem. -/
def note (e : AssemblyError) : Noted Unit := ⟨(), [e]⟩

/-- The value of `a?`, or a substitute and a note. -/
def ofOption {α : Type} (a? : Option α) (substitute : α) (e : AssemblyError) : Noted α :=
  match a? with
  | some a => pure a
  | none => ⟨substitute, [e]⟩

end Noted

/-- The operand tokens of one instruction, with what is needed to read them. -/
structure Operands where
  /-- The mnemonic that messages name. -/
  mnemonic : Mnemonic
  tokens : List Text
  labels : LabelTable
  /-- The address of the instruction. -/
  address : Word

namespace Operands

/-! ## Reading operands -/

/-- The token at an index, with a note if it is absent. -/
def token (o : Operands) (index : Nat) : Noted (Option Text) :=
  match o.tokens[index]? with
  | some t => pure (some t)
  | none => ⟨none, [.missingOperand o.mnemonic (index + 1)]⟩

/-- The token at an index under a reading, or a substitute if it is absent. -/
def read {α : Type} (o : Operands) (index : Nat) (substitute : α) (reading : Text → Noted α) :
    Noted α := do
  match ← o.token index with
  | some t => reading t
  | none => return substitute

/-- A register operand. -/
def register (o : Operands) (index : Nat) : Noted Nat :=
  o.read index 0 fun t => .ofOption (Register.ofToken? t) 0 (.badRegister t)

/-- The value that a token has as an immediate, if it has one. -/
def immediate? (o : Operands) (t : Text) : Option Int :=
  match o.labels[t]? with
  | some target => some (target.toNat - o.address.toNat)
  | none => Operand.literal? t

/-- What is wrong with a token that is no immediate. -/
def immediateError (t : Text) : AssemblyError :=
  if Operand.looksLikeLabel t then .undefinedLabel t else .badImmediate t

/-- A token as an immediate. -/
def immediateOf (o : Operands) (t : Text) : Noted Int :=
  .ofOption (o.immediate? t) 0 (immediateError t)

/-- An immediate operand. -/
def immediate (o : Operands) (index : Nat) : Noted Int :=
  o.read index 0 o.immediateOf

/-- A memory operand: its offset, where an empty one is 0, and its base register. -/
def memory (o : Operands) (index : Nat) : Noted (Int × Nat) :=
  o.read index (0, 0) fun t =>
    match Operand.memory? t with
    | some ([], base) => return (0, base)
    | some (offset, base) => return (← o.immediateOf offset, base)
    | none => ⟨(0, 0), [.badMemoryOperand t]⟩

/-- A CSR operand. -/
def csr (o : Operands) (index : Nat) : Noted Nat :=
  o.read index 0 fun t => .ofOption (Csr.ofToken? t) 0 (.badCsr t)

/-! ## Checks -/

/-- Notes the first operand past the given number. -/
def expectCount (o : Operands) (count : Nat) : Noted Unit :=
  match o.tokens[count]? with
  | some t => .note (.extraOperand o.mnemonic t)
  | none => return

/-- Notes a value outside a closed range. -/
def expectRange (value min max : Int) : Noted Unit :=
  if value < min ∨ max < value then .note (.outOfRange value min max) else return

/-- Notes an odd value. -/
def expectEven (value : Int) : Noted Unit :=
  if value % 2 = 0 then return else .note (.oddOffset value)

/-! ## Encoding -/

/-- The base register and the offset of a `jalr`: one memory operand, or two operands. -/
def jumpBase (o : Operands) : Noted (Nat × Int) := do
  if o.mnemonic = .jalr ∧ o.tokens.length = 2 then
    let (offset, base) ← o.memory 1
    return (base, offset)
  else
    let base ← o.register 1
    let offset ← o.immediate 2
    o.expectCount 3
    return (base, offset)

/-- The word of a canonical instruction with these operands. -/
def encode (o : Operands) : Noted Word :=
  let row := o.mnemonic.description
  let opcode := row.opcode.code
  match row.format with
  | .r => do
    let rd ← o.register 0
    let rs1 ← o.register 1
    let rs2 ← o.register 2
    o.expectCount 3
    return Packing.r row.funct7 rs2 rs1 row.funct3 rd opcode
  | .i => do
    let rd ← o.register 0
    let (rs1, imm) ← o.jumpBase
    expectRange imm (-2048) 4095
    return Packing.i imm rs1 row.funct3 rd opcode
  | .iShift => do
    let rd ← o.register 0
    let rs1 ← o.register 1
    let amount ← o.immediate 2
    o.expectCount 3
    expectRange amount 0 31
    return Packing.i (row.funct7 * 32 + amount % 32) rs1 row.funct3 rd opcode
  | .load => do
    let rd ← o.register 0
    let (imm, rs1) ← o.memory 1
    o.expectCount 2
    expectRange imm (-2048) 4095
    return Packing.i imm rs1 row.funct3 rd opcode
  | .s => do
    let rs2 ← o.register 0
    let (imm, rs1) ← o.memory 1
    o.expectCount 2
    expectRange imm (-2048) 4095
    return Packing.s imm rs2 rs1 row.funct3 opcode
  | .b => do
    let rs1 ← o.register 0
    let rs2 ← o.register 1
    let offset ← o.immediate 2
    o.expectCount 3
    expectRange offset (-4096) 4094
    expectEven offset
    return Packing.b offset rs2 rs1 row.funct3 opcode
  | .u => do
    let rd ← o.register 0
    let upper ← o.immediate 1
    o.expectCount 2
    expectRange upper (-0x80000) 0xFFFFF
    return Packing.u upper rd opcode
  | .j => do
    let rd ← o.register 0
    let offset ← o.immediate 1
    o.expectCount 2
    expectRange offset (-0x100000) 0xFFFFE
    expectEven offset
    return Packing.j offset rd opcode
  | .csr => do
    let rd ← o.register 0
    let address ← o.csr 1
    let rs1 ← o.register 2
    o.expectCount 3
    return Packing.i address rs1 row.funct3 rd opcode
  | .csrImm => do
    let rd ← o.register 0
    let address ← o.csr 1
    let value ← o.immediate 2
    o.expectCount 3
    expectRange value 0 31
    return Packing.i address (value % 32).toNat row.funct3 rd opcode
  | .system => do
    o.expectCount 0
    return Packing.i (if o.mnemonic = .ebreak then 1 else 0) 0 0 0 opcode

end Operands

/-- Exchanges the first two elements of a list that has two. -/
def exchangeFirstTwo {α : Type} : List α → List α
  | a :: b :: rest => b :: a :: rest
  | l => l

/-- The operands of the canonical instruction for a mnemonic and its operands. -/
def canonicalOperands (m : Mnemonic) (tokens : List Text) : List Text :=
  if m.isPseudo then exchangeFirstTwo tokens else tokens

/-- The word for a mnemonic and its operand tokens at an address, with the problems in the order in
which the operands are read. -/
def encode (m : Mnemonic) (tokens : List Text) (labels : LabelTable) (address : Word) :
    Noted Word :=
  Operands.encode
    { mnemonic := m.canonical, tokens := canonicalOperands m tokens, labels, address }

end RefHart
