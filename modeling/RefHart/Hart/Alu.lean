import RefHart.Isa.Mnemonic
import RefHart.Word

/-!
# Arithmetic

The operations on register values. Shifts take the lowest five bits of the amount. Division rounds
toward zero; division by zero gives a quotient of all ones and leaves the dividend as the remainder,
and the one quotient that does not fit wraps around.
-/

namespace RefHart.Alu

/-- The word 1 for a true statement and 0 for a false one. -/
def ofBool (b : Bool) : Word := if b then 1 else 0

/-- The shift amount in a word. -/
def shiftAmount (b : Word) : Nat := (b &&& 0x1F).toNat

/-- The upper half of a product of 64 bits. -/
def upperHalf (product : BitVec 64) : Word := (product >>> 32).setWidth 32

/-- The result of a register operation, or none for any other mnemonic. -/
def register? (op : Mnemonic) (a b : Word) : Option Word :=
  match op with
  | .add => some (a + b)
  | .sub => some (a - b)
  | .sll => some (a <<< shiftAmount b)
  | .slt => some (ofBool (a.slt b))
  | .sltu => some (ofBool (a.ult b))
  | .xor => some (a ^^^ b)
  | .srl => some (a >>> shiftAmount b)
  | .sra => some (a.sshiftRight (shiftAmount b))
  | .or => some (a ||| b)
  | .and => some (a &&& b)
  | .mul => some (a * b)
  | .mulh => some (upperHalf (a.signExtend 64 * b.signExtend 64))
  | .mulhsu => some (upperHalf (a.signExtend 64 * b.setWidth 64))
  | .mulhu => some (upperHalf (a.setWidth 64 * b.setWidth 64))
  | .div => some (if b = 0 then BitVec.allOnes 32 else a.sdiv b)
  | .divu => some (if b = 0 then BitVec.allOnes 32 else a / b)
  | .rem => some (if b = 0 then a else a.srem b)
  | .remu => some (if b = 0 then a else a % b)
  | _ => none

/-- The result of an operation with an immediate, or none for any other mnemonic. -/
def immediate? (op : Mnemonic) (a imm : Word) : Option Word :=
  match op with
  | .addi => some (a + imm)
  | .slti => some (ofBool (a.slt imm))
  | .sltiu => some (ofBool (a.ult imm))
  | .xori => some (a ^^^ imm)
  | .ori => some (a ||| imm)
  | .andi => some (a &&& imm)
  | .slli => some (a <<< shiftAmount imm)
  | .srli => some (a >>> shiftAmount imm)
  | .srai => some (a.sshiftRight (shiftAmount imm))
  | _ => none

/-- Whether a canonical branch is taken; no other mnemonic branches. -/
def branchTaken (op : Mnemonic) (a b : Word) : Bool :=
  match op with
  | .beq => a == b
  | .bne => a != b
  | .blt => a.slt b
  | .bge => !a.slt b
  | .bltu => a.ult b
  | .bgeu => !a.ult b
  | _ => false

end RefHart.Alu
