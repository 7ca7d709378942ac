import Mathlib
import RefHart.Isa.Instruction
import RefHart.Isa.Packing
import RefHart.Proofs.Word

/-!
# Packed words and their fields

Each layout of `Packing` lists its parts from the most significant one on and the parts do not
overlap, so a packed word is a sum (`toNat_r`, `toNat_i`, `toNat_s`, `toNat_b`, `toNat_u`,
`toNat_j`). The fields and immediates that decoding takes out are quotients and remainders of that
sum.
-/

namespace RefHart

theorem Opcode.code_lt (o : Opcode) : o.code < 128 := by cases o <;> decide

theorem Mnemonic.funct3_lt (m : Mnemonic) : m.description.funct3 < 8 := by cases m <;> decide

theorem Mnemonic.funct7_lt (m : Mnemonic) : m.description.funct7 < 128 := by cases m <;> decide

namespace Packing

/-! ## Packed words as sums -/

/-- Joins a part to the parts above bit `k`, with the numbers that they stand for. -/
theorem toNat_join {x y : Word} {a b : Nat} (k : Nat) (hx : x.toNat = a) (hy : y.toNat = b)
    (ha : 2 ^ k ∣ a) (hb : b < 2 ^ k) : (x ||| y).toNat = a + b := by
  subst hx hy
  exact Word.toNat_or_of_dvd k ha hb

theorem toNat_field (v lsb : Nat) (h : v * 2 ^ lsb < 2 ^ 32) : (field v lsb).toNat = v * 2 ^ lsb := by
  have hv : v < 2 ^ 32 := lt_of_le_of_lt (Nat.le_mul_of_pos_right v (by positivity)) h
  have hn : (BitVec.ofNat 32 v).toNat = v := by rw [BitVec.toNat_ofNat, Nat.mod_eq_of_lt hv]
  rw [field, Word.toNat_shiftLeft_of_lt (by rwa [hn]), hn]

theorem toNat_field_zero {v : Nat} (h : v < 2 ^ 32) : (field v 0).toNat = v := by
  rw [toNat_field v 0 (by simpa using h), pow_zero, mul_one]

theorem toNat_register (r lsb : Nat) (h : lsb ≤ 27) :
    (register r lsb).toNat = r % 32 * 2 ^ lsb := by
  have hpow : 2 ^ lsb ≤ 2 ^ 27 := Nat.pow_le_pow_right (by decide) h
  have hn : (BitVec.ofNat 32 r &&& 0x1F).toNat = r % 32 := by
    rw [Word.toNat_and_31, BitVec.toNat_ofNat]
    omega
  rw [register, Word.toNat_shiftLeft_of_lt (by rw [hn]; nlinarith [Nat.mod_lt r (show 0 < 32 by decide)]), hn]

theorem toNat_shiftLeft {x : Word} {a k : Nat} (hx : x.toNat = a) (h : a * 2 ^ k < 2 ^ 32) :
    (x <<< k).toNat = a * 2 ^ k := by
  subst hx
  exact Word.toNat_shiftLeft_of_lt h

theorem toNat_bits_shiftLeft (v : Word) (hi lo k : Nat) (h : hi - lo + 1 + k ≤ 32) :
    (v.bits hi lo <<< k).toNat = v.toNat / 2 ^ lo % 2 ^ (hi - lo + 1) * 2 ^ k := by
  have hlt : v.toNat / 2 ^ lo % 2 ^ (hi - lo + 1) < 2 ^ (hi - lo + 1) :=
    Nat.mod_lt _ (by positivity)
  refine toNat_shiftLeft (Word.toNat_bits v (by omega)) ?_
  calc v.toNat / 2 ^ lo % 2 ^ (hi - lo + 1) * 2 ^ k
      < 2 ^ (hi - lo + 1) * 2 ^ k := Nat.mul_lt_mul_of_pos_right hlt (by positivity)
    _ = 2 ^ (hi - lo + 1 + k) := (pow_add ..).symm
    _ ≤ 2 ^ 32 := Nat.pow_le_pow_right (by decide) h

variable {funct7 funct3 opcode : Nat}

theorem toNat_r (rs2 rs1 rd : Nat) (h7 : funct7 < 128) (h3 : funct3 < 8) (ho : opcode < 128) :
    (r funct7 rs2 rs1 funct3 rd opcode).toNat =
      funct7 * 2 ^ 25 + rs2 % 32 * 2 ^ 20 + rs1 % 32 * 2 ^ 15 + funct3 * 2 ^ 12 +
        rd % 32 * 2 ^ 7 + opcode := by
  have h₁ := toNat_join 25 (toNat_field funct7 25 (by omega))
    (toNat_register rs2 20 (by decide)) (by omega) (by omega)
  have h₂ := toNat_join 20 h₁ (toNat_register rs1 15 (by decide)) (by omega) (by omega)
  have h₃ := toNat_join 15 h₂ (toNat_field funct3 12 (by omega)) (by omega)
    (by omega)
  have h₄ := toNat_join 12 h₃ (toNat_register rd 7 (by decide)) (by omega) (by omega)
  exact toNat_join 7 h₄ (toNat_field_zero (by omega)) (by omega) (by omega)

theorem toNat_i (imm : Int) (rs1 rd : Nat) (h3 : funct3 < 8) (ho : opcode < 128) :
    (i imm rs1 funct3 rd opcode).toNat =
      (Word.mask imm 12).toNat * 2 ^ 20 + rs1 % 32 * 2 ^ 15 + funct3 * 2 ^ 12 + rd % 32 * 2 ^ 7 +
        opcode := by
  have hm : (Word.mask imm 12).toNat < 2 ^ 12 := Word.toNat_mask_lt imm 12 (by decide)
  have h₁ := toNat_join 20 (toNat_shiftLeft (x := Word.mask imm 12) (k := 20) rfl (by omega))
    (toNat_register rs1 15 (by decide)) (by omega) (by omega)
  have h₂ := toNat_join 15 h₁ (toNat_field funct3 12 (by omega)) (by omega)
    (by omega)
  have h₃ := toNat_join 12 h₂ (toNat_register rd 7 (by decide)) (by omega) (by omega)
  exact toNat_join 7 h₃ (toNat_field_zero (by omega)) (by omega) (by omega)

theorem toNat_s (imm : Int) (rs2 rs1 : Nat) (h3 : funct3 < 8) (ho : opcode < 128) :
    (s imm rs2 rs1 funct3 opcode).toNat =
      (Word.mask imm 12).toNat / 2 ^ 5 % 2 ^ 7 * 2 ^ 25 + rs2 % 32 * 2 ^ 20 + rs1 % 32 * 2 ^ 15 +
        funct3 * 2 ^ 12 + (Word.mask imm 12).toNat / 2 ^ 0 % 2 ^ 5 * 2 ^ 7 + opcode := by
  have h₁ := toNat_join 25
    (toNat_bits_shiftLeft (Word.mask imm 12) 11 5 25 (by decide))
    (toNat_register rs2 20 (by decide)) (by omega) (by omega)
  have h₂ := toNat_join 20 h₁ (toNat_register rs1 15 (by decide)) (by omega) (by omega)
  have h₃ := toNat_join 15 h₂ (toNat_field funct3 12 (by omega)) (by omega)
    (by omega)
  have h₄ := toNat_join 12 h₃
    (toNat_bits_shiftLeft (Word.mask imm 12) 4 0 7 (by decide)) (by omega)
    (by omega)
  exact toNat_join 7 h₄ (toNat_field_zero (by omega)) (by omega) (by omega)

theorem toNat_b (imm : Int) (rs2 rs1 : Nat) (h3 : funct3 < 8) (ho : opcode < 128) :
    (b imm rs2 rs1 funct3 opcode).toNat =
      (Word.mask imm 13).toNat / 2 ^ 12 % 2 ^ 1 * 2 ^ 31 +
        (Word.mask imm 13).toNat / 2 ^ 5 % 2 ^ 6 * 2 ^ 25 + rs2 % 32 * 2 ^ 20 + rs1 % 32 * 2 ^ 15 +
        funct3 * 2 ^ 12 + (Word.mask imm 13).toNat / 2 ^ 1 % 2 ^ 4 * 2 ^ 8 +
        (Word.mask imm 13).toNat / 2 ^ 11 % 2 ^ 1 * 2 ^ 7 + opcode := by
  have h₁ := toNat_join 31
    (toNat_bits_shiftLeft (Word.mask imm 13) 12 12 31 (by decide))
    (toNat_bits_shiftLeft (Word.mask imm 13) 10 5 25 (by decide)) (by omega)
    (by omega)
  have h₂ := toNat_join 25 h₁ (toNat_register rs2 20 (by decide)) (by omega) (by omega)
  have h₃ := toNat_join 20 h₂ (toNat_register rs1 15 (by decide)) (by omega) (by omega)
  have h₄ := toNat_join 15 h₃ (toNat_field funct3 12 (by omega)) (by omega)
    (by omega)
  have h₅ := toNat_join 12 h₄
    (toNat_bits_shiftLeft (Word.mask imm 13) 4 1 8 (by decide)) (by omega)
    (by omega)
  have h₆ := toNat_join 8 h₅
    (toNat_bits_shiftLeft (Word.mask imm 13) 11 11 7 (by decide)) (by omega)
    (by omega)
  exact toNat_join 7 h₆ (toNat_field_zero (by omega)) (by omega) (by omega)

theorem toNat_u (imm : Int) (rd : Nat) (ho : opcode < 128) :
    (u imm rd opcode).toNat = (Word.mask imm 20).toNat * 2 ^ 12 + rd % 32 * 2 ^ 7 + opcode := by
  have hm : (Word.mask imm 20).toNat < 2 ^ 20 := Word.toNat_mask_lt imm 20 (by decide)
  have h₁ := toNat_join 12 (toNat_shiftLeft (x := Word.mask imm 20) (k := 12) rfl (by omega))
    (toNat_register rd 7 (by decide)) (by omega) (by omega)
  exact toNat_join 7 h₁ (toNat_field_zero (by omega)) (by omega) (by omega)

theorem toNat_j (imm : Int) (rd : Nat) (ho : opcode < 128) :
    (j imm rd opcode).toNat =
      (Word.mask imm 21).toNat / 2 ^ 20 % 2 ^ 1 * 2 ^ 31 +
        (Word.mask imm 21).toNat / 2 ^ 1 % 2 ^ 10 * 2 ^ 21 +
        (Word.mask imm 21).toNat / 2 ^ 11 % 2 ^ 1 * 2 ^ 20 +
        (Word.mask imm 21).toNat / 2 ^ 12 % 2 ^ 8 * 2 ^ 12 + rd % 32 * 2 ^ 7 + opcode := by
  have h₁ := toNat_join 31
    (toNat_bits_shiftLeft (Word.mask imm 21) 20 20 31 (by decide))
    (toNat_bits_shiftLeft (Word.mask imm 21) 10 1 21 (by decide)) (by omega)
    (by omega)
  have h₂ := toNat_join 21 h₁
    (toNat_bits_shiftLeft (Word.mask imm 21) 11 11 20 (by decide)) (by omega)
    (by omega)
  have h₃ := toNat_join 20 h₂
    (toNat_bits_shiftLeft (Word.mask imm 21) 19 12 12 (by decide)) (by omega)
    (by omega)
  have h₄ := toNat_join 12 h₃ (toNat_register rd 7 (by decide)) (by omega) (by omega)
  exact toNat_join 7 h₄ (toNat_field_zero (by omega)) (by omega) (by omega)

end Packing

end RefHart
