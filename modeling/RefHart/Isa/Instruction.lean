import RefHart.Isa.Mnemonic
import RefHart.Word

/-!
# Instructions

A machine word taken apart into its fields, and the mnemonic that it stands for.

**Reserved encodings.** Decoding is lenient where a minimal decoder in hardware is. In the register
operations every `funct7` but `0x01` and `0x20` selects the base operation. Of the upper bits of an
immediate shift only bit 30 counts. A `SYSTEM` word with `funct3 = 0` is an `ecall` unless its upper
twelve bits are 1.
-/

namespace RefHart

/-- A machine word with its fields. A record put together by hand may hold any combination. -/
structure Instruction where
  /-- What to execute, if the word is claimed by an instruction. -/
  op : Option Mnemonic
  opcode : Nat
  rd : Nat
  rs1 : Nat
  rs2 : Nat
  funct3 : Nat
  funct7 : Nat
  /-- The sign-extended immediate of the word's format. -/
  imm : Word
  raw : Word
  deriving DecidableEq, Repr

namespace Instruction

/-- The value of a bit field as a number. -/
def field (w : Word) (hi lo : Nat) : Nat := (w.bits hi lo).toNat

/-! ## Immediates -/

/-- Bits 31 to 20. -/
def immI (w : Word) : Word := Word.extendSign (w.bits 31 20) 12

/-- The two parts of a store offset. -/
def immS (w : Word) : Word := Word.extendSign (w.bits 31 25 <<< 5 ||| w.bits 11 7) 12

/-- The four parts of a branch offset. -/
def immB (w : Word) : Word :=
  Word.extendSign
    (w.bits 31 31 <<< 12 ||| w.bits 7 7 <<< 11 ||| w.bits 30 25 <<< 5 ||| w.bits 11 8 <<< 1) 13

/-- Bits 31 to 12 in their place. -/
def immU (w : Word) : Word := w &&& 0xFFFFF000

/-- The four parts of a jump offset. -/
def immJ (w : Word) : Word :=
  Word.extendSign
    (w.bits 31 31 <<< 20 ||| w.bits 19 12 <<< 12 ||| w.bits 20 20 <<< 11 ||| w.bits 30 21 <<< 1) 21

/-- The immediate of a word, as the format of its opcode has it; 0 where there is none. -/
def immediate (w : Word) : Word :=
  match Opcode.ofCode? (field w 6 0) with
  | some .opImm | some .load | some .jalr | some .system => immI w
  | some .store => immS w
  | some .branch => immB w
  | some .lui | some .auipc => immU w
  | some .jal => immJ w
  | some .op | none => 0

/-! ## Mnemonics -/

/-- The register operations. -/
def registerOp (funct3 funct7 : Nat) : Mnemonic :=
  match funct3, funct7 with
  | 0, 0x01 => .mul
  | 1, 0x01 => .mulh
  | 2, 0x01 => .mulhsu
  | 3, 0x01 => .mulhu
  | 4, 0x01 => .div
  | 5, 0x01 => .divu
  | 6, 0x01 => .rem
  | 7, 0x01 => .remu
  | 0, 0x20 => .sub
  | 0, _ => .add
  | 1, _ => .sll
  | 2, _ => .slt
  | 3, _ => .sltu
  | 4, _ => .xor
  | 5, 0x20 => .sra
  | 5, _ => .srl
  | 6, _ => .or
  | _, _ => .and

/-- The operations with an immediate; bit 10 of it tells the two right shifts apart. -/
def immediateOp (funct3 : Nat) (imm : Word) : Mnemonic :=
  match funct3 with
  | 0 => .addi
  | 1 => .slli
  | 2 => .slti
  | 3 => .sltiu
  | 4 => .xori
  | 5 => if imm.getLsbD 10 then .srai else .srli
  | 6 => .ori
  | _ => .andi

/-- The loads. -/
def loadOp? : Nat → Option Mnemonic
  | 0 => some .lb
  | 1 => some .lh
  | 2 => some .lw
  | 4 => some .lbu
  | 5 => some .lhu
  | _ => none

/-- The stores. -/
def storeOp? : Nat → Option Mnemonic
  | 0 => some .sb
  | 1 => some .sh
  | 2 => some .sw
  | _ => none

/-- The branches. -/
def branchOp? : Nat → Option Mnemonic
  | 0 => some .beq
  | 1 => some .bne
  | 4 => some .blt
  | 5 => some .bge
  | 6 => some .bltu
  | 7 => some .bgeu
  | _ => none

/-- The system instructions. -/
def systemOp? (funct3 : Nat) (imm : Word) : Option Mnemonic :=
  match funct3 with
  | 0 => some (if imm = 1 then .ebreak else .ecall)
  | 1 => some .csrrw
  | 2 => some .csrrs
  | 3 => some .csrrc
  | 5 => some .csrrwi
  | 6 => some .csrrsi
  | 7 => some .csrrci
  | _ => none

/-- The mnemonic that claims a word with the given fields, if one does. -/
def mnemonic? (opcode funct3 funct7 : Nat) (imm : Word) : Option Mnemonic :=
  match Opcode.ofCode? opcode with
  | some .op => some (registerOp funct3 funct7)
  | some .opImm => some (immediateOp funct3 imm)
  | some .load => loadOp? funct3
  | some .store => storeOp? funct3
  | some .branch => branchOp? funct3
  | some .lui => some .lui
  | some .auipc => some .auipc
  | some .jal => some .jal
  | some .jalr => some .jalr
  | some .system => systemOp? funct3 imm
  | none => none

/-- Takes a word apart. -/
def decode (w : Word) : Instruction where
  op := mnemonic? (field w 6 0) (field w 14 12) (field w 31 25) (immediate w)
  opcode := field w 6 0
  rd := field w 11 7
  rs1 := field w 19 15
  rs2 := field w 24 20
  funct3 := field w 14 12
  funct7 := field w 31 25
  imm := immediate w
  raw := w

end Instruction

end RefHart
