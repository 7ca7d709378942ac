import Mathlib
import RefHart.Proofs.Packing

/-!
# Decoding packed words

**Fields.** Every word is the sum of the six fields of the register layout (`toNat_eq_fields`), and
a word given as such a sum has its summands as fields (`fields_of_toNat`). The other layouts are read
through the same six fields: their immediates are spread over some of them.

**Immediates.** `toInt_immI_i` and its siblings: the immediate that decoding gathers is the
representative nearest to zero of the value that packing scattered. A branch or jump offset loses
its lowest bit on the way.

**Mnemonics.** `mnemonic?_description`: the decoder, which tests fields by itself, finds the mnemonic
back from the fields that the encoding table lists for it. It gives none that has another opcode
there (`ofCode?_of_mnemonic?`).
-/

namespace RefHart.Instruction

open Packing

/-! ## Fields -/

theorem field_eq (w : Word) {hi lo : Nat} (h : hi - lo < 32) :
    field w hi lo = w.toNat / 2 ^ lo % 2 ^ (hi - lo + 1) := Word.toNat_bits w h

theorem field_lt (w : Word) (hi lo : Nat) (h : hi - lo < 32) : field w hi lo < 2 ^ (hi - lo + 1) := by
  rw [field_eq w h]
  exact Nat.mod_lt _ (by positivity)

/-- A word is the sum of its fields. -/
theorem toNat_eq_fields (w : Word) :
    w.toNat = field w 31 25 * 2 ^ 25 + field w 24 20 * 2 ^ 20 + field w 19 15 * 2 ^ 15 +
      field w 14 12 * 2 ^ 12 + field w 11 7 * 2 ^ 7 + field w 6 0 := by
  repeat rw [field_eq w (by decide)]
  omega

/-- The fields of a word are read off a sum of the right form. -/
theorem fields_of_toNat {w : Word} {funct7 rs2 rs1 funct3 rd opcode : Nat}
    (hw : w.toNat = funct7 * 2 ^ 25 + rs2 * 2 ^ 20 + rs1 * 2 ^ 15 + funct3 * 2 ^ 12 + rd * 2 ^ 7 +
      opcode)
    (h2 : rs2 < 32) (h1 : rs1 < 32) (h3 : funct3 < 8) (hd : rd < 32) (ho : opcode < 128) :
    field w 31 25 = funct7 ∧ field w 24 20 = rs2 ∧ field w 19 15 = rs1 ∧ field w 14 12 = funct3 ∧
      field w 11 7 = rd ∧ field w 6 0 = opcode := by
  have hlt := w.isLt
  refine ⟨?_, ?_, ?_, ?_, ?_, ?_⟩ <;> rw [field_eq w (by decide), hw] <;> omega

variable {funct7 funct3 opcode : Nat}

theorem fields_r (rs2 rs1 rd : Nat) (h7 : funct7 < 128) (h3 : funct3 < 8) (ho : opcode < 128) :
    let w := r funct7 rs2 rs1 funct3 rd opcode
    field w 31 25 = funct7 ∧ field w 24 20 = rs2 % 32 ∧ field w 19 15 = rs1 % 32 ∧
      field w 14 12 = funct3 ∧ field w 11 7 = rd % 32 ∧ field w 6 0 = opcode :=
  fields_of_toNat (toNat_r rs2 rs1 rd h7 h3 ho) (Nat.mod_lt _ (by decide))
    (Nat.mod_lt _ (by decide)) h3 (Nat.mod_lt _ (by decide)) ho

theorem fields_i (imm : Int) (rs1 rd : Nat) (h3 : funct3 < 8) (ho : opcode < 128) :
    let w := i imm rs1 funct3 rd opcode
    let v := (Word.mask imm 12).toNat
    field w 31 25 = v / 32 ∧ field w 24 20 = v % 32 ∧ field w 19 15 = rs1 % 32 ∧
      field w 14 12 = funct3 ∧ field w 11 7 = rd % 32 ∧ field w 6 0 = opcode := by
  intro w v
  refine fields_of_toNat ?_ (Nat.mod_lt _ (by decide)) (Nat.mod_lt _ (by decide)) h3
    (Nat.mod_lt _ (by decide)) ho
  rw [toNat_i imm rs1 rd h3 ho]
  omega

theorem fields_s (imm : Int) (rs2 rs1 : Nat) (h3 : funct3 < 8) (ho : opcode < 128) :
    let w := s imm rs2 rs1 funct3 opcode
    let v := (Word.mask imm 12).toNat
    field w 31 25 = v / 2 ^ 5 % 2 ^ 7 ∧ field w 24 20 = rs2 % 32 ∧ field w 19 15 = rs1 % 32 ∧
      field w 14 12 = funct3 ∧ field w 11 7 = v / 2 ^ 0 % 2 ^ 5 ∧ field w 6 0 = opcode :=
  fields_of_toNat (toNat_s imm rs2 rs1 h3 ho) (Nat.mod_lt _ (by decide))
    (Nat.mod_lt _ (by decide)) h3 (Nat.mod_lt _ (by decide)) ho

theorem fields_b (imm : Int) (rs2 rs1 : Nat) (h3 : funct3 < 8) (ho : opcode < 128) :
    let w := b imm rs2 rs1 funct3 opcode
    let v := (Word.mask imm 13).toNat
    field w 31 25 = v / 2 ^ 12 % 2 * 2 ^ 6 + v / 2 ^ 5 % 2 ^ 6 ∧ field w 24 20 = rs2 % 32 ∧
      field w 19 15 = rs1 % 32 ∧ field w 14 12 = funct3 ∧
      field w 11 7 = v / 2 % 2 ^ 4 * 2 + v / 2 ^ 11 % 2 ∧ field w 6 0 = opcode := by
  intro w v
  refine fields_of_toNat ?_ (Nat.mod_lt _ (by decide)) (Nat.mod_lt _ (by decide)) h3 (by omega) ho
  rw [toNat_b imm rs2 rs1 h3 ho, pow_one]
  ring

theorem fields_u (imm : Int) (rd : Nat) (ho : opcode < 128) :
    let w := u imm rd opcode
    let v := (Word.mask imm 20).toNat
    field w 31 25 = v / 2 ^ 13 ∧ field w 24 20 = v / 2 ^ 8 % 32 ∧ field w 19 15 = v / 2 ^ 3 % 32 ∧
      field w 14 12 = v % 8 ∧ field w 11 7 = rd % 32 ∧ field w 6 0 = opcode := by
  intro w v
  refine fields_of_toNat ?_ (Nat.mod_lt _ (by decide)) (Nat.mod_lt _ (by decide))
    (Nat.mod_lt _ (by decide)) (Nat.mod_lt _ (by decide)) ho
  rw [toNat_u imm rd ho]
  omega

theorem fields_j (imm : Int) (rd : Nat) (ho : opcode < 128) :
    let w := j imm rd opcode
    let v := (Word.mask imm 21).toNat
    field w 31 25 = v / 2 ^ 20 % 2 * 2 ^ 6 + v / 2 ^ 5 % 2 ^ 6 ∧
      field w 24 20 = v / 2 % 2 ^ 4 * 2 + v / 2 ^ 11 % 2 ∧
      field w 19 15 = v / 2 ^ 15 % 2 ^ 5 ∧ field w 14 12 = v / 2 ^ 12 % 2 ^ 3 ∧
      field w 11 7 = rd % 32 ∧ field w 6 0 = opcode := by
  intro w v
  have hlow : v / 2 % 2 ^ 10 = v / 2 ^ 5 % 2 ^ 6 * 2 ^ 4 + v / 2 % 2 ^ 4 := by omega
  have hmid : v / 2 ^ 12 % 2 ^ 8 = v / 2 ^ 15 % 2 ^ 5 * 2 ^ 3 + v / 2 ^ 12 % 2 ^ 3 := by omega
  refine fields_of_toNat ?_ (by omega) (Nat.mod_lt _ (by decide)) (Nat.mod_lt _ (by decide))
    (Nat.mod_lt _ (by decide)) ho
  rw [toNat_j imm rd ho, pow_one, hlow, hmid]
  ring

/-! ## Immediates -/

theorem toInt_immI (w : Word) :
    (immI w).toInt = ((field w 31 25 * 2 ^ 5 + field w 24 20 : Nat) : Int).bmod (2 ^ 12) := by
  have hv : (w.bits 31 20).toNat = field w 31 25 * 2 ^ 5 + field w 24 20 := by
    rw [Word.toNat_bits w (by decide), field_eq w (by decide), field_eq w (by decide)]
    omega
  rw [immI, Word.toInt_extendSign _ (by decide) (by decide), hv]

theorem toInt_immS (w : Word) :
    (immS w).toInt = ((field w 31 25 * 2 ^ 5 + field w 11 7 : Nat) : Int).bmod (2 ^ 12) := by
  have hs : (w.bits 31 25).toNat < 2 ^ 7 := field_lt w 31 25 (by decide)
  have hd : (w.bits 11 7).toNat < 2 ^ 5 := field_lt w 11 7 (by decide)
  have hv : (w.bits 31 25 <<< 5 ||| w.bits 11 7).toNat =
      (w.bits 31 25).toNat * 2 ^ 5 + (w.bits 11 7).toNat :=
    toNat_join 5 (toNat_shiftLeft rfl (by omega)) rfl (by omega) hd
  rw [immS, Word.toInt_extendSign _ (by decide) (by decide), hv]
  rfl

theorem toInt_immB (w : Word) :
    (immB w).toInt =
      ((field w 31 25 / 2 ^ 6 * 2 ^ 12 + field w 11 7 % 2 * 2 ^ 11 + field w 31 25 % 2 ^ 6 * 2 ^ 5 +
        field w 11 7 / 2 * 2 : Nat) : Int).bmod (2 ^ 13) := by
  have hsign : w.toNat / 2 ^ 31 % 2 ^ 1 = field w 31 25 / 2 ^ 6 := by
    rw [field_eq w (by decide)]; omega
  have htop : w.toNat / 2 ^ 7 % 2 ^ 1 = field w 11 7 % 2 := by
    rw [field_eq w (by decide)]; omega
  have hhigh : w.toNat / 2 ^ 25 % 2 ^ 6 = field w 31 25 % 2 ^ 6 := by
    rw [field_eq w (by decide)]; omega
  have hlow : w.toNat / 2 ^ 8 % 2 ^ 4 = field w 11 7 / 2 := by
    rw [field_eq w (by decide)]; omega
  have h₁ := toNat_join 12 (toNat_bits_shiftLeft w 31 31 12 (by decide))
    (toNat_bits_shiftLeft w 7 7 11 (by decide)) (by omega) (by omega)
  have h₂ := toNat_join 11 h₁ (toNat_bits_shiftLeft w 30 25 5 (by decide))
    (by omega) (by omega)
  have h₃ := toNat_join 5 h₂ (toNat_bits_shiftLeft w 11 8 1 (by decide))
    (by omega) (by omega)
  simp only [Nat.reduceSub, Nat.reduceAdd, hsign, htop, hhigh, hlow] at h₃
  rw [immB, Word.toInt_extendSign _ (by decide) (by decide), h₃, pow_one]

theorem toNat_immU (w : Word) :
    (immU w).toNat =
      (field w 31 25 * 2 ^ 13 + field w 24 20 * 2 ^ 8 + field w 19 15 * 2 ^ 3 + field w 14 12) *
        2 ^ 12 := by
  have hmask : (0xFFFFF000 : Word) = BitVec.allOnes 32 <<< 12 := by decide
  have hu : immU w = w >>> 12 <<< 12 := by
    rw [BitVec.shiftLeft_ushiftRight, ← hmask]
    rfl
  rw [hu, toNat_shiftLeft (k := 12) (BitVec.toNat_ushiftRight w 12) (by
    rw [Nat.shiftRight_eq_div_pow]
    omega), Nat.shiftRight_eq_div_pow]
  repeat rw [field_eq w (by decide)]
  omega

theorem toInt_immJ (w : Word) :
    (immJ w).toInt =
      ((field w 31 25 / 2 ^ 6 * 2 ^ 20 + (field w 19 15 * 2 ^ 3 + field w 14 12) * 2 ^ 12 +
        field w 24 20 % 2 * 2 ^ 11 + (field w 31 25 % 2 ^ 6 * 2 ^ 4 + field w 24 20 / 2) * 2 : Nat) :
          Int).bmod (2 ^ 21) := by
  have hsign : w.toNat / 2 ^ 31 % 2 ^ 1 = field w 31 25 / 2 ^ 6 := by
    rw [field_eq w (by decide)]; omega
  have hhigh : w.toNat / 2 ^ 12 % 2 ^ 8 = field w 19 15 * 2 ^ 3 + field w 14 12 := by
    rw [field_eq w (by decide), field_eq w (by decide)]; omega
  have htop : w.toNat / 2 ^ 20 % 2 ^ 1 = field w 24 20 % 2 := by
    rw [field_eq w (by decide)]; omega
  have hlow : w.toNat / 2 ^ 21 % 2 ^ 10 = field w 31 25 % 2 ^ 6 * 2 ^ 4 + field w 24 20 / 2 := by
    rw [field_eq w (by decide), field_eq w (by decide)]; omega
  have h₁ := toNat_join 20 (toNat_bits_shiftLeft w 31 31 20 (by decide))
    (toNat_bits_shiftLeft w 19 12 12 (by decide)) (by omega) (by omega)
  have h₂ := toNat_join 12 h₁ (toNat_bits_shiftLeft w 20 20 11 (by decide))
    (by omega) (by omega)
  have h₃ := toNat_join 11 h₂ (toNat_bits_shiftLeft w 30 21 1 (by decide))
    (by omega) (by omega)
  simp only [Nat.reduceSub, Nat.reduceAdd, hsign, htop, hhigh, hlow] at h₃
  rw [immJ, Word.toInt_extendSign _ (by decide) (by decide), h₃, pow_one]

theorem even_immB (w : Word) : (immB w).toNat % 2 = 0 :=
  Word.even_of_toInt_eq_bmod (k := 12) (toInt_immB w) (by omega)

theorem even_immJ (w : Word) : (immJ w).toNat % 2 = 0 :=
  Word.even_of_toInt_eq_bmod (k := 20) (toInt_immJ w) (by omega)

/-! ## Immediates of packed words -/

theorem join_div {a c k : Nat} (h : c < k) : (a * k + c) / k = a := by
  rw [Nat.mul_comm, Nat.mul_add_div (by omega), Nat.div_eq_of_lt h, add_zero]

theorem join_mod {a c k : Nat} (h : c < k) : (a * k + c) % k = c := by
  rw [Nat.mul_comm, Nat.mul_add_mod, Nat.mod_eq_of_lt h]

theorem parts_of_lt_two_pow_13 {v : Nat} (h : v < 2 ^ 13) :
    v / 2 ^ 12 % 2 * 2 ^ 12 + v / 2 ^ 11 % 2 * 2 ^ 11 + v / 2 ^ 5 % 2 ^ 6 * 2 ^ 5 +
      v / 2 % 2 ^ 4 * 2 = v / 2 * 2 := by omega

theorem parts_of_lt_two_pow_21 {v : Nat} (h : v < 2 ^ 21) :
    v / 2 ^ 20 % 2 * 2 ^ 20 + (v / 2 ^ 15 % 2 ^ 5 * 2 ^ 3 + v / 2 ^ 12 % 2 ^ 3) * 2 ^ 12 +
      v / 2 ^ 11 % 2 * 2 ^ 11 + (v / 2 ^ 5 % 2 ^ 6 * 2 ^ 4 + v / 2 % 2 ^ 4) * 2 = v / 2 * 2 := by
  omega

theorem toInt_immI_i (imm : Int) (rs1 rd : Nat) (h3 : funct3 < 8) (ho : opcode < 128) :
    (immI (i imm rs1 funct3 rd opcode)).toInt = imm.bmod (2 ^ 12) := by
  obtain ⟨h7, h2, -⟩ := fields_i imm rs1 rd h3 ho
  have hm := Word.toNat_mask imm 12 (by decide)
  have hv : (Word.mask imm 12).toNat / 32 * 2 ^ 5 + (Word.mask imm 12).toNat % 32 =
      (Word.mask imm 12).toNat := Nat.div_add_mod' _ 32
  rw [toInt_immI, h7, h2, hv, hm]
  exact Int.emod_bmod imm (2 ^ 12)

theorem toInt_immS_s (imm : Int) (rs2 rs1 : Nat) (h3 : funct3 < 8) (ho : opcode < 128) :
    (immS (s imm rs2 rs1 funct3 opcode)).toInt = imm.bmod (2 ^ 12) := by
  obtain ⟨h7, -, -, -, hd, -⟩ := fields_s imm rs2 rs1 h3 ho
  have hm := Word.toNat_mask imm 12 (by decide)
  have hv : (((Word.mask imm 12).toNat / 2 ^ 5 % 2 ^ 7 * 2 ^ 5 +
      (Word.mask imm 12).toNat / 2 ^ 0 % 2 ^ 5 : Nat) : Int) = imm % 2 ^ 12 := by omega
  rw [toInt_immS, h7, hd, hv]
  exact Int.emod_bmod imm (2 ^ 12)

theorem toInt_immB_b (imm : Int) (rs2 rs1 : Nat) (h3 : funct3 < 8) (ho : opcode < 128) :
    (immB (b imm rs2 rs1 funct3 opcode)).toInt = (imm / 2 * 2).bmod (2 ^ 13) := by
  obtain ⟨h7, -, -, -, hd, -⟩ := fields_b imm rs2 rs1 h3 ho
  have hm := Word.toNat_mask imm 13 (by decide)
  have hsplit := parts_of_lt_two_pow_13 (Word.toNat_mask_lt imm 13 (by decide))
  generalize (Word.mask imm 13).toNat = v at hm h7 hd hsplit
  have hv : ((v / 2 * 2 : Nat) : Int) = imm / 2 * 2 % 2 ^ 13 := by omega
  rw [toInt_immB, h7, hd, join_div (Nat.mod_lt _ (by decide)), join_mod (Nat.mod_lt _ (by decide)),
    join_mod (Nat.mod_lt _ (by decide)), join_div (Nat.mod_lt _ (by decide)), hsplit, hv]
  exact Int.emod_bmod (imm / 2 * 2) (2 ^ 13)

theorem toNat_immU_u (imm : Int) (rd : Nat) (ho : opcode < 128) :
    ((immU (u imm rd opcode)).toNat : Int) = imm % 2 ^ 20 * 2 ^ 12 := by
  obtain ⟨h7, h2, h1, h3, -⟩ := fields_u imm rd ho
  have hm := Word.toNat_mask imm 20 (by decide)
  rw [toNat_immU, h7, h2, h1, h3]
  omega

theorem toInt_immJ_j (imm : Int) (rd : Nat) (ho : opcode < 128) :
    (immJ (j imm rd opcode)).toInt = (imm / 2 * 2).bmod (2 ^ 21) := by
  obtain ⟨h7, h2, h1, h3, -⟩ := fields_j imm rd ho
  have hm := Word.toNat_mask imm 21 (by decide)
  have hsplit := parts_of_lt_two_pow_21 (Word.toNat_mask_lt imm 21 (by decide))
  generalize (Word.mask imm 21).toNat = v at hm h7 h2 h1 h3 hsplit
  have hv : ((v / 2 * 2 : Nat) : Int) = imm / 2 * 2 % 2 ^ 21 := by omega
  rw [toInt_immJ, h7, h2, h1, h3, join_div (Nat.mod_lt _ (by decide)),
    join_mod (Nat.mod_lt _ (by decide)), join_mod (Nat.mod_lt _ (by decide)),
    join_div (Nat.mod_lt _ (by decide)), hsplit, hv]
  exact Int.emod_bmod (imm / 2 * 2) (2 ^ 21)

/-! ## Mnemonics -/

/-- The decoder agrees with the encoding table. Of the bits above the table's fields it looks at
`funct7` in a register operation, at bit 10 of a shift's immediate, and at the immediate of an
environment call or breakpoint. -/
theorem mnemonic?_description {m : Mnemonic} {funct7 : Nat} {imm : Word} (hm : m.isPseudo = false)
    (hr : m.format = .r → funct7 = m.description.funct7)
    (hshift : m.format = .iShift → imm.getLsbD 10 = (m.description.funct7 == 0x20))
    (hsystem : m.format = .system → (imm = 1 ↔ m = .ebreak)) :
    mnemonic? m.description.opcode.code m.description.funct3 funct7 imm = some m := by
  cases m
  all_goals first
    | rfl
    | exact absurd hm (by decide)
    | rw [hr rfl]; rfl
    | simp_all [mnemonic?, Mnemonic.description, Mnemonic.format, Opcode.code, Opcode.ofCode?,
        immediateOp, systemOp?]

theorem opcode_registerOp (funct3 funct7 : Nat) :
    (registerOp funct3 funct7).description.opcode = .op := by
  unfold registerOp
  split <;> rfl

theorem opcode_immediateOp (funct3 : Nat) (imm : Word) :
    (immediateOp funct3 imm).description.opcode = .opImm := by
  unfold immediateOp
  split
  all_goals first
    | rfl
    | split_ifs <;> rfl

theorem opcode_of_loadOp? {funct3 : Nat} {op : Mnemonic} (h : loadOp? funct3 = some op) :
    op.description.opcode = .load := by
  unfold loadOp? at h
  split at h <;> cases h <;> rfl

theorem opcode_of_storeOp? {funct3 : Nat} {op : Mnemonic} (h : storeOp? funct3 = some op) :
    op.description.opcode = .store := by
  unfold storeOp? at h
  split at h <;> cases h <;> rfl

theorem opcode_of_branchOp? {funct3 : Nat} {op : Mnemonic} (h : branchOp? funct3 = some op) :
    op.description.opcode = .branch := by
  unfold branchOp? at h
  split at h <;> cases h <;> rfl

theorem opcode_of_systemOp? {funct3 : Nat} {imm : Word} {op : Mnemonic}
    (h : systemOp? funct3 imm = some op) : op.description.opcode = .system := by
  unfold systemOp? at h
  split at h
  · split_ifs at h <;> cases h <;> rfl
  all_goals cases h <;> rfl

/-- A mnemonic is only found under its own opcode. -/
theorem ofCode?_of_mnemonic? {opcode funct3 funct7 : Nat} {imm : Word} {op : Mnemonic}
    (h : mnemonic? opcode funct3 funct7 imm = some op) :
    Opcode.ofCode? opcode = some op.description.opcode := by
  unfold mnemonic? at h
  cases hcode : Opcode.ofCode? opcode with rw [hcode] at h
  | none => contradiction
  | some code =>
    cases code with
    | op => rw [← Option.some.inj h, opcode_registerOp]
    | opImm => rw [← Option.some.inj h, opcode_immediateOp]
    | load => rw [opcode_of_loadOp? h]
    | store => rw [opcode_of_storeOp? h]
    | branch => rw [opcode_of_branchOp? h]
    | system => rw [opcode_of_systemOp? h]
    | lui | auipc | jal | jalr => rw [← Option.some.inj h]; rfl

end RefHart.Instruction
