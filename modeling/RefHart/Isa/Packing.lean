import RefHart.Word

/-!
# Packing instruction words

The six layouts of a 32-bit instruction word. Each part is moved to its place and the parts are
joined by a bitwise or. Of a register number the lowest five bits are placed and of an immediate as
many bits as the layout has; the opcode fields are placed whole, and what they push past bit 31 is
lost.
-/

namespace RefHart.Packing

/-- An opcode field at bit `lsb`. -/
def field (v lsb : Nat) : Word := BitVec.ofNat 32 v <<< lsb

/-- The lowest five bits of a register number at bit `lsb`. -/
def register (r lsb : Nat) : Word := (BitVec.ofNat 32 r &&& 0x1F) <<< lsb

/-- Two source registers and a destination. -/
def r (funct7 rs2 rs1 funct3 rd opcode : Nat) : Word :=
  field funct7 25 ||| register rs2 20 ||| register rs1 15 ||| field funct3 12 ||| register rd 7 |||
    field opcode 0

/-- A source register, a destination and a 12-bit immediate. -/
def i (imm : Int) (rs1 funct3 rd opcode : Nat) : Word :=
  Word.mask imm 12 <<< 20 ||| register rs1 15 ||| field funct3 12 ||| register rd 7 |||
    field opcode 0

/-- Two source registers and a 12-bit immediate in two parts. -/
def s (imm : Int) (rs2 rs1 funct3 opcode : Nat) : Word :=
  let v := Word.mask imm 12
  v.bits 11 5 <<< 25 ||| register rs2 20 ||| register rs1 15 ||| field funct3 12 |||
    v.bits 4 0 <<< 7 ||| field opcode 0

/-- Two source registers and a 13-bit even offset in four parts. -/
def b (imm : Int) (rs2 rs1 funct3 opcode : Nat) : Word :=
  let v := Word.mask imm 13
  v.bits 12 12 <<< 31 ||| v.bits 10 5 <<< 25 ||| register rs2 20 ||| register rs1 15 |||
    field funct3 12 ||| v.bits 4 1 <<< 8 ||| v.bits 11 11 <<< 7 ||| field opcode 0

/-- A destination and the value of bits 31 to 12. -/
def u (imm : Int) (rd opcode : Nat) : Word :=
  Word.mask imm 20 <<< 12 ||| register rd 7 ||| field opcode 0

/-- A destination and a 21-bit even offset in four parts. -/
def j (imm : Int) (rd opcode : Nat) : Word :=
  let v := Word.mask imm 21
  v.bits 20 20 <<< 31 ||| v.bits 10 1 <<< 21 ||| v.bits 11 11 <<< 20 ||| v.bits 19 12 <<< 12 |||
    register rd 7 ||| field opcode 0

end RefHart.Packing
