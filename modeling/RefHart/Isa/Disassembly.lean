import RefHart.Isa.Instruction
import RefHart.Isa.Csr

/-!
# Disassembly

The assembly text of an instruction. Registers are written by number, immediates in signed decimal,
upper immediates in hexadecimal, CSRs by name where they have one. A word that no instruction claims
is written as data, and an `ecall` that is not the canonical word carries the word in a comment.
-/

namespace RefHart.Instruction

/-- A register operand. -/
def registerText (r : Nat) : Text := 'x' :: Numeral.decimal r

/-- An immediate operand. -/
def immediateText (v : Word) : Text := Numeral.signedDecimal v.toInt

/-- The operands of an instruction, as its format lists them. -/
def operandTexts (format : Format) (d : Instruction) : List Text :=
  match format with
  | .r => [registerText d.rd, registerText d.rs1, registerText d.rs2]
  | .i => [registerText d.rd, registerText d.rs1, immediateText d.imm]
  | .iShift => [registerText d.rd, registerText d.rs1, immediateText (d.imm &&& 0x1F)]
  | .load => [registerText d.rd, immediateText d.imm ++ "(" ++ registerText d.rs1 ++ ")"]
  | .s => [registerText d.rs2, immediateText d.imm ++ "(" ++ registerText d.rs1 ++ ")"]
  | .b => [registerText d.rs1, registerText d.rs2, immediateText d.imm]
  | .u => [registerText d.rd, Numeral.markedHex 1 (d.imm >>> 12).toNat]
  | .j => [registerText d.rd, immediateText d.imm]
  | .csr => [registerText d.rd, Csr.text (d.raw >>> 20).toNat, registerText d.rs1]
  | .csrImm => [registerText d.rd, Csr.text (d.raw >>> 20).toNat, Numeral.decimal d.rs1]
  | .system => []

/-- The operands behind a blank, with a comma and a blank between them. -/
def joinOperands : List Text → Text
  | [] => []
  | operands => ' ' :: [',', ' '].intercalate operands

/-- The comment on an `ecall` that is not the canonical word. -/
def remark (op : Mnemonic) (raw : Word) : Text :=
  if op = .ecall ∧ raw ≠ 0x73 then " // " ++ Numeral.markedHex 8 raw.toNat else []

/-- The assembly text of an instruction. -/
def text (d : Instruction) : Text :=
  match d.op with
  | none => ".word " ++ Numeral.markedHex 8 d.raw.toNat
  | some op => op.name ++ joinOperands (operandTexts op.format d) ++ remark op d.raw

end RefHart.Instruction
