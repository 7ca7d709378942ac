import Mathlib
import RefHart.Proofs.Repacking

/-!
# Canonical words

Decoding is lenient, so several words may stand for one instruction with the same operands.
`canonicalWord` picks the one among them that the encoding table lists.

A claimed word is turned into the word that packing makes of its mnemonic and its operand values
(`canonicalWord_eq_pack`), and every packed word is canonical (`canonicalWord_pack`). So taking the
canonical word is idempotent, keeps the mnemonic, and leaves every word alone that encoding gives
(`canonicalWord_canonicalWord`, `op_canonicalWord`, `canonicalWord_encode`). Which words it leaves alone
is said bit by bit by `HasTableBits` (`canonicalWord_eq_self_iff`).
-/

namespace RefHart.Instruction

/-- The word that the encoding table has for the instruction of a word. Decoding looks at `funct7` in
register operations and immediate shifts, but takes more than one value for the same mnemonic; it does
not look at `funct3` in a `jalr`, nor at the registers of an `ecall` or `ebreak`. -/
def canonicalWord (w : Word) : Word :=
  match (decode w).op with
  | none => w
  | some op =>
    match op.format with
    | .r | .iShift => Packing.field op.description.funct7 25 ||| (w &&& 0x01FFFFFF)
    | .system => if op = .ebreak then 0x00100073 else 0x00000073
    | _ => if op = .jalr then w &&& 0xFFFF8FFF else w

/-! ## Setting a field -/

variable {w : Word} {op : Mnemonic}

/-- With `funct7` replaced. -/
theorem toNat_setFunct7 (w : Word) {funct7 : Nat} (h : funct7 < 128) :
    (Packing.field funct7 25 ||| (w &&& 0x01FFFFFF)).toNat =
      funct7 * 2 ^ 25 + field w 24 20 * 2 ^ 20 + field w 19 15 * 2 ^ 15 + field w 14 12 * 2 ^ 12 +
        field w 11 7 * 2 ^ 7 + field w 6 0 := by
  have hones : (0x01FFFFFF : Word) = Word.ones 25 := by decide
  have hlow : (w &&& 0x01FFFFFF).toNat = w.toNat % 2 ^ 25 := by
    rw [hones, Word.toNat_and_ones _ (by decide)]
  have hw := toNat_eq_fields w
  obtain ⟨-, h2, h1, h3, hd, ho⟩ := fields_lt w
  rw [Packing.toNat_join 25 (Packing.toNat_field funct7 25 (by omega)) hlow (by omega) (by omega)]
  omega

/-- With `funct3` set to 0. -/
theorem toNat_clearFunct3 (w : Word) :
    (w &&& 0xFFFF8FFF).toNat =
      field w 31 25 * 2 ^ 25 + field w 24 20 * 2 ^ 20 + field w 19 15 * 2 ^ 15 +
        field w 11 7 * 2 ^ 7 + field w 6 0 := by
  have hparts : (0xFFFF8FFF : Word) = BitVec.allOnes 32 <<< 15 ||| Word.ones 12 := by decide
  have hhigh : (w >>> 15 <<< 15).toNat = w.toNat / 2 ^ 15 * 2 ^ 15 :=
    Packing.toNat_shiftLeft (k := 15) (by rw [BitVec.toNat_ushiftRight, Nat.shiftRight_eq_div_pow])
      (by omega)
  have hw := toNat_eq_fields w
  obtain ⟨h7, h2, h1, h3, hd, ho⟩ := fields_lt w
  rw [hparts, BitVec.and_or_distrib_left, ← BitVec.shiftLeft_ushiftRight,
    Packing.toNat_join 15 hhigh (Word.toNat_and_ones w (by decide)) (by omega) (by omega)]
  omega

theorem setFunct7_eq {funct7 : Nat} (h : field w 31 25 = funct7) :
    Packing.field funct7 25 ||| (w &&& 0x01FFFFFF) = w := by
  subst h
  apply BitVec.eq_of_toNat_eq
  rw [toNat_setFunct7 w (fields_lt w).1, toNat_eq_fields w]

theorem clearFunct3_eq (h : field w 14 12 = 0) : w &&& 0xFFFF8FFF = w := by
  apply BitVec.eq_of_toNat_eq
  rw [toNat_clearFunct3, toNat_eq_fields w, h]
  omega

/-! ## Canonical words are packed words -/

theorem ne_jalr_of_format (h : op.format ≠ .i) : op ≠ .jalr := by
  rintro rfl
  exact h rfl

theorem not_ignoresFunct3 (hop : op ≠ .jalr) (hformat : op.format ∉ [Format.u, .j]) :
    ¬ ignoresFunct3 op := by
  simp only [List.mem_cons, List.not_mem_nil, or_false, not_or] at hformat
  rintro (h | h | h)
  · exact hformat.1 h
  · exact hformat.2 h
  · exact hop h

/-- The address of a CSR and the other fields make up a word. -/
theorem i_ushiftRight_twenty (w : Word) :
    Packing.i (w >>> 20).toNat (field w 19 15) (field w 14 12) (field w 11 7) (field w 6 0) = w := by
  obtain ⟨h7, h2, h1, h3, hd, ho⟩ := fields_lt w
  have hm := Word.toNat_mask (w >>> 20).toNat 12 (by decide)
  rw [toNat_ushiftRight_twenty] at hm
  apply BitVec.eq_of_toNat_eq
  rw [Packing.toNat_i _ _ _ h3 ho, toNat_ushiftRight_twenty, toNat_eq_fields w]
  omega

theorem toNat_immI_mod (w : Word) : (immI w).toNat % 32 = field w 24 20 := by
  obtain ⟨h7, h2, -⟩ := fields_lt w
  have himm := toInt_immI w
  rw [Int.bmod_def, BitVec.toInt_eq_toNat_cond] at himm
  push_cast at himm
  split_ifs at himm <;> omega

theorem eq_ecall_or_ebreak (h : op.format = .system) : op = .ecall ∨ op = .ebreak := by
  cases op <;> first | exact .inl rfl | exact .inr rfl | cases h

/-- The canonical word of an instruction is what packing makes of its mnemonic and operands. -/
theorem canonicalWord_eq_pack (h : (decode w).op = some op) :
    canonicalWord w = ((decode w).values op.format).pack op := by
  obtain ⟨h7, h2, h1, h3, hd, ho⟩ := fields_lt w
  have hopcode := opcode_of_op_decode h
  have hfunct3 := fun hjalr hformat => funct3_of_op_decode h (not_ignoresFunct3 hjalr hformat)
  have himm := imm_decode h
  rw [canonicalWord, h]
  cases hf : op.format with (rw [hf] at himm hfunct3; simp only [hf])
  | r =>
    have hfunct3 := hfunct3 (ne_jalr_of_format (by simp [hf])) (by decide)
    apply BitVec.eq_of_toNat_eq
    rw [toNat_setFunct7 w op.funct7_lt, values, OperandValues.pack,
      Packing.toNat_r _ _ _ op.funct7_lt op.funct3_lt (Opcode.code_lt _), ← hfunct3, ← hopcode]
    simp only [decode]
    omega
  | iShift =>
    have hfunct3 := hfunct3 (ne_jalr_of_format (by simp [hf])) (by decide)
    apply BitVec.eq_of_toNat_eq
    rw [toNat_setFunct7 w op.funct7_lt, values, OperandValues.pack, himm, Format.immediate,
      toInt_and_31, Word.toNat_and_31, toNat_immI_mod,
      Packing.toNat_i _ _ _ op.funct3_lt (Opcode.code_lt _), ← hfunct3, ← hopcode]
    have hm := Word.toNat_mask (op.description.funct7 * 32 + (field w 24 20 : Int) % 32) 12 (by decide)
    have h7 := op.funct7_lt
    simp only [decode]
    omega
  | i =>
    rw [values, OperandValues.pack, himm, ← hopcode]
    split_ifs with hjalr
    · subst hjalr
      have hm := Word.toNat_mask_of_eq_bmod (toInt_immI w) (by omega) (by decide)
      apply BitVec.eq_of_toNat_eq
      rw [toNat_clearFunct3, Format.immediate, Packing.toNat_i _ _ _ (Mnemonic.funct3_lt _) ho, hm]
      simp only [decode, Mnemonic.description]
      omega
    · rw [← hfunct3 hjalr (by decide)]
      exact (i_immI w).symm
  | load =>
    have hjalr : op ≠ .jalr := ne_jalr_of_format (by simp [hf])
    rw [if_neg hjalr, values, OperandValues.pack, himm, ← hfunct3 hjalr (by decide), ← hopcode]
    exact (i_immI w).symm
  | s =>
    have hjalr : op ≠ .jalr := ne_jalr_of_format (by simp [hf])
    rw [if_neg hjalr, values, OperandValues.pack, himm, ← hfunct3 hjalr (by decide), ← hopcode]
    exact (s_immS w).symm
  | b =>
    have hjalr : op ≠ .jalr := ne_jalr_of_format (by simp [hf])
    rw [if_neg hjalr, values, OperandValues.pack, himm, ← hfunct3 hjalr (by decide), ← hopcode]
    exact (b_immB w).symm
  | u =>
    rw [if_neg (ne_jalr_of_format (by simp [hf])), values, OperandValues.pack, himm, ← hopcode]
    exact (u_immU w).symm
  | j =>
    rw [if_neg (ne_jalr_of_format (by simp [hf])), values, OperandValues.pack, himm, ← hopcode]
    exact (j_immJ w).symm
  | csr =>
    have hjalr : op ≠ .jalr := ne_jalr_of_format (by simp [hf])
    rw [if_neg hjalr, values, OperandValues.pack, ← hfunct3 hjalr (by decide), ← hopcode]
    exact (i_ushiftRight_twenty w).symm
  | csrImm =>
    have hjalr : op ≠ .jalr := ne_jalr_of_format (by simp [hf])
    have hrs1 : (((decode w).rs1 : Int) % 32).toNat = field w 19 15 := by
      simp only [decode]
      omega
    rw [if_neg hjalr, values, OperandValues.pack, hrs1, ← hfunct3 hjalr (by decide), ← hopcode]
    exact (i_ushiftRight_twenty w).symm
  | system =>
    rw [values]
    rcases eq_ecall_or_ebreak hf with rfl | rfl <;> rfl

/-- Packed words are canonical, also when some of their operands have been cut down. -/
theorem canonicalWord_pack {v : OperandValues} (hop : op.isPseudo = false)
    (hv : v.format = op.format) :
    canonicalWord (v.pack op) = v.pack op := by
  have h3 := op.funct3_lt
  have h7 := op.funct7_lt
  have ho := op.description.opcode.code_lt
  rw [canonicalWord, op_decode_pack hop hv]
  cases v with simp only [← hv, OperandValues.format]
  | registers rd rs1 rs2 => exact setFunct7_eq (fields_r rs2 rs1 rd h7 h3 ho).1
  | shift rd rs1 amount =>
    have hm := Word.toNat_mask (op.description.funct7 * 32 + amount % 32) 12 (by decide)
    obtain ⟨hf7, -⟩ := fields_i (op.description.funct7 * 32 + amount % 32) rs1 rd h3 ho
    exact setFunct7_eq (hf7.trans (by omega))
  | immediate rd rs1 v =>
    split_ifs with hjalr
    · subst hjalr
      exact clearFunct3_eq (fields_i v rs1 rd h3 ho).2.2.2.1
    · rfl
  | none => rcases eq_ecall_or_ebreak hv.symm with rfl | rfl <;> rfl
  | _ => exact if_neg (ne_jalr_of_format (by simp [← hv, OperandValues.format]))

/-! ## Canonical words as a normal form -/

/-- The canonical word stands for the same mnemonic. -/
theorem op_canonicalWord (w : Word) : (decode (canonicalWord w)).op = (decode w).op := by
  cases h : (decode w).op with
  | none => rw [canonicalWord, h, h]
  | some op =>
    rw [canonicalWord_eq_pack h, op_decode_pack (isPseudo_of_op_decode h) (format_values _ _)]

theorem canonicalWord_canonicalWord (w : Word) :
    canonicalWord (canonicalWord w) = canonicalWord w := by
  cases h : (decode w).op with
  | none =>
    have hw : canonicalWord w = w := by rw [canonicalWord, h]
    rw [hw, hw]
  | some op =>
    rw [canonicalWord_eq_pack h, canonicalWord_pack (isPseudo_of_op_decode h) (format_values _ _)]

theorem canonicalWord_encode (m : Mnemonic) (tokens : List Text) (labels : LabelTable)
    (address : Word) :
    canonicalWord (encode m tokens labels address).value =
      (encode m tokens labels address).value := by
  obtain ⟨v, hv, hword⟩ := exists_pack_of_encode m tokens labels address
  rw [hword, canonicalWord_pack m.isPseudo_canonical hv]

/-- The bits that decoding leaves open for a mnemonic are those of the encoding table. -/
def HasTableBits (op : Mnemonic) (w : Word) : Prop :=
  match op.format with
  | .r | .iShift => field w 31 25 = op.description.funct7
  | .i => op = .jalr → field w 14 12 = op.description.funct3
  | .system => w = if op = .ebreak then 0x00100073 else 0x00000073
  | _ => True

theorem canonicalWord_eq_self_iff (h : (decode w).op = some op) :
    canonicalWord w = w ↔ HasTableBits op w := by
  rw [HasTableBits]
  cases hf : op.format with simp only [canonicalWord, h, hf]
  | r | iShift =>
    refine ⟨fun heq => ?_, setFunct7_eq⟩
    have hnat := congrArg BitVec.toNat heq
    rw [toNat_setFunct7 w op.funct7_lt] at hnat
    have hw := toNat_eq_fields w
    omega
  | i =>
    split_ifs with hjalr
    · subst hjalr
      refine ⟨fun heq _ => ?_, fun heq => clearFunct3_eq (heq rfl)⟩
      have hnat := congrArg BitVec.toNat heq
      rw [toNat_clearFunct3] at hnat
      have hw := toNat_eq_fields w
      have hrow : Mnemonic.jalr.description.funct3 = 0 := rfl
      omega
    · exact iff_of_true rfl fun heq => absurd heq hjalr
  | system => exact eq_comm
  | load | s | b | u | j | csr | csrImm =>
    exact iff_of_true (if_neg (ne_jalr_of_format (by simp [hf]))) trivial

end RefHart.Instruction
