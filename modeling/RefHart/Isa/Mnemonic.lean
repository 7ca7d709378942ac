import RefHart.Text.Basic

/-!
# Mnemonics of RV32IM

The instructions of RV32I and its multiply/divide extension, the CSR accesses, and four
pseudo-branches that stand for a canonical branch with its two registers exchanged.

`Mnemonic.description` is the encoding table: operand format, major opcode and the two minor opcode
fields of each mnemonic.
-/

namespace RefHart

/-! ## Opcodes and formats -/

/-- The major opcodes in use. -/
inductive Opcode where
  | load | opImm | auipc | store | op | lui | branch | jalr | jal | system
  deriving DecidableEq, Repr

namespace Opcode

/-- The lowest seven bits of a word with this opcode. -/
def code : Opcode → Nat
  | load => 0x03
  | opImm => 0x13
  | auipc => 0x17
  | store => 0x23
  | op => 0x33
  | lui => 0x37
  | branch => 0x63
  | jalr => 0x67
  | jal => 0x6F
  | system => 0x73

/-- The opcode with the given code. -/
def ofCode? : Nat → Option Opcode
  | 0x03 => some load
  | 0x13 => some opImm
  | 0x17 => some auipc
  | 0x23 => some store
  | 0x33 => some op
  | 0x37 => some lui
  | 0x63 => some branch
  | 0x67 => some jalr
  | 0x6F => some jal
  | 0x73 => some system
  | _ => none

end Opcode

/-- How an instruction writes its operands, in assembly text and in the word. -/
inductive Format where
  /-- Three registers. -/
  | r
  /-- Two registers and an immediate. -/
  | i
  /-- Two registers and a shift amount. -/
  | iShift
  /-- A destination and a memory operand. -/
  | load
  /-- A source and a memory operand. -/
  | s
  /-- Two registers and a branch offset. -/
  | b
  /-- A register and an upper immediate. -/
  | u
  /-- A register and a jump offset. -/
  | j
  /-- A register, a CSR and a register. -/
  | csr
  /-- A register, a CSR and a five-bit immediate. -/
  | csrImm
  /-- No operand. -/
  | system
  deriving DecidableEq, Repr

/-! ## Mnemonics -/

/-- The mnemonics of the assembly language. -/
inductive Mnemonic where
  | add | sub | sll | slt | sltu | xor | srl | sra | or | and
  | mul | mulh | mulhsu | mulhu | div | divu | rem | remu
  | addi | slti | sltiu | xori | ori | andi | slli | srli | srai
  | lb | lh | lw | lbu | lhu | sb | sh | sw
  | beq | bne | blt | bge | bltu | bgeu | ble | bleu | bgt | bgtu
  | lui | auipc | jal | jalr
  | ecall | ebreak | csrrw | csrrs | csrrc | csrrwi | csrrsi | csrrci
  deriving DecidableEq, Repr

/-- What the encoding table says of a mnemonic. -/
structure Description where
  format : Format
  opcode : Opcode
  funct3 : Nat
  funct7 : Nat
  deriving DecidableEq, Repr

namespace Mnemonic

/-- Every mnemonic, in the order of the table. -/
def all : List Mnemonic :=
  [add, sub, sll, slt, sltu, xor, srl, sra, or, and,
   mul, mulh, mulhsu, mulhu, div, divu, rem, remu,
   addi, slti, sltiu, xori, ori, andi, slli, srli, srai,
   lb, lh, lw, lbu, lhu, sb, sh, sw,
   beq, bne, blt, bge, bltu, bgeu, ble, bleu, bgt, bgtu,
   lui, auipc, jal, jalr,
   ecall, ebreak, csrrw, csrrs, csrrc, csrrwi, csrrsi, csrrci]

/-- The encoding table. A pseudo-branch has the row of its canonical branch. -/
def description : Mnemonic → Description
  | add => ⟨.r, .op, 0, 0x00⟩
  | sub => ⟨.r, .op, 0, 0x20⟩
  | sll => ⟨.r, .op, 1, 0x00⟩
  | slt => ⟨.r, .op, 2, 0x00⟩
  | sltu => ⟨.r, .op, 3, 0x00⟩
  | xor => ⟨.r, .op, 4, 0x00⟩
  | srl => ⟨.r, .op, 5, 0x00⟩
  | sra => ⟨.r, .op, 5, 0x20⟩
  | or => ⟨.r, .op, 6, 0x00⟩
  | and => ⟨.r, .op, 7, 0x00⟩
  | mul => ⟨.r, .op, 0, 0x01⟩
  | mulh => ⟨.r, .op, 1, 0x01⟩
  | mulhsu => ⟨.r, .op, 2, 0x01⟩
  | mulhu => ⟨.r, .op, 3, 0x01⟩
  | div => ⟨.r, .op, 4, 0x01⟩
  | divu => ⟨.r, .op, 5, 0x01⟩
  | rem => ⟨.r, .op, 6, 0x01⟩
  | remu => ⟨.r, .op, 7, 0x01⟩
  | addi => ⟨.i, .opImm, 0, 0⟩
  | slti => ⟨.i, .opImm, 2, 0⟩
  | sltiu => ⟨.i, .opImm, 3, 0⟩
  | xori => ⟨.i, .opImm, 4, 0⟩
  | ori => ⟨.i, .opImm, 6, 0⟩
  | andi => ⟨.i, .opImm, 7, 0⟩
  | slli => ⟨.iShift, .opImm, 1, 0x00⟩
  | srli => ⟨.iShift, .opImm, 5, 0x00⟩
  | srai => ⟨.iShift, .opImm, 5, 0x20⟩
  | lb => ⟨.load, .load, 0, 0⟩
  | lh => ⟨.load, .load, 1, 0⟩
  | lw => ⟨.load, .load, 2, 0⟩
  | lbu => ⟨.load, .load, 4, 0⟩
  | lhu => ⟨.load, .load, 5, 0⟩
  | sb => ⟨.s, .store, 0, 0⟩
  | sh => ⟨.s, .store, 1, 0⟩
  | sw => ⟨.s, .store, 2, 0⟩
  | beq => ⟨.b, .branch, 0, 0⟩
  | bne => ⟨.b, .branch, 1, 0⟩
  | blt => ⟨.b, .branch, 4, 0⟩
  | bge => ⟨.b, .branch, 5, 0⟩
  | bltu => ⟨.b, .branch, 6, 0⟩
  | bgeu => ⟨.b, .branch, 7, 0⟩
  | ble => ⟨.b, .branch, 5, 0⟩
  | bleu => ⟨.b, .branch, 7, 0⟩
  | bgt => ⟨.b, .branch, 4, 0⟩
  | bgtu => ⟨.b, .branch, 6, 0⟩
  | lui => ⟨.u, .lui, 0, 0⟩
  | auipc => ⟨.u, .auipc, 0, 0⟩
  | jal => ⟨.j, .jal, 0, 0⟩
  | jalr => ⟨.i, .jalr, 0, 0⟩
  | ecall => ⟨.system, .system, 0, 0⟩
  | ebreak => ⟨.system, .system, 0, 0⟩
  | csrrw => ⟨.csr, .system, 1, 0⟩
  | csrrs => ⟨.csr, .system, 2, 0⟩
  | csrrc => ⟨.csr, .system, 3, 0⟩
  | csrrwi => ⟨.csrImm, .system, 5, 0⟩
  | csrrsi => ⟨.csrImm, .system, 6, 0⟩
  | csrrci => ⟨.csrImm, .system, 7, 0⟩

/-- The operand format. -/
def format (m : Mnemonic) : Format := m.description.format

/-- The canonical branch that a pseudo-branch stands for. -/
def canonical? : Mnemonic → Option Mnemonic
  | ble => some bge
  | bleu => some bgeu
  | bgt => some blt
  | bgtu => some bltu
  | _ => none

/-- The mnemonic that is encoded: the canonical branch of a pseudo-branch, else the mnemonic. -/
def canonical (m : Mnemonic) : Mnemonic := m.canonical?.getD m

/-- Whether the mnemonic is a pseudo-branch. -/
def isPseudo (m : Mnemonic) : Bool := m.canonical?.isSome

/-- Whether the mnemonic belongs to the multiply/divide extension. -/
def isMulDiv (m : Mnemonic) : Bool :=
  m.description.opcode == .op && m.description.funct7 == 0x01

/-! ## Names -/

/-- The name in assembly text. -/
def name : Mnemonic → Text
  | add => "add"
  | sub => "sub"
  | sll => "sll"
  | slt => "slt"
  | sltu => "sltu"
  | xor => "xor"
  | srl => "srl"
  | sra => "sra"
  | or => "or"
  | and => "and"
  | mul => "mul"
  | mulh => "mulh"
  | mulhsu => "mulhsu"
  | mulhu => "mulhu"
  | div => "div"
  | divu => "divu"
  | rem => "rem"
  | remu => "remu"
  | addi => "addi"
  | slti => "slti"
  | sltiu => "sltiu"
  | xori => "xori"
  | ori => "ori"
  | andi => "andi"
  | slli => "slli"
  | srli => "srli"
  | srai => "srai"
  | lb => "lb"
  | lh => "lh"
  | lw => "lw"
  | lbu => "lbu"
  | lhu => "lhu"
  | sb => "sb"
  | sh => "sh"
  | sw => "sw"
  | beq => "beq"
  | bne => "bne"
  | blt => "blt"
  | bge => "bge"
  | bltu => "bltu"
  | bgeu => "bgeu"
  | ble => "ble"
  | bleu => "bleu"
  | bgt => "bgt"
  | bgtu => "bgtu"
  | lui => "lui"
  | auipc => "auipc"
  | jal => "jal"
  | jalr => "jalr"
  | ecall => "ecall"
  | ebreak => "ebreak"
  | csrrw => "csrrw"
  | csrrs => "csrrs"
  | csrrc => "csrrc"
  | csrrwi => "csrrwi"
  | csrrsi => "csrrsi"
  | csrrci => "csrrci"

/-- The mnemonic that a token names, in any ASCII letter case. -/
def ofName? (token : Text) : Option Mnemonic :=
  all.find? fun m => m.name == token.toLower

end Mnemonic

end RefHart
