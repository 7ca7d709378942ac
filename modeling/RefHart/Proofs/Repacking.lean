import Mathlib
import RefHart.Proofs.RoundTrip

/-!
# Decoding, then packing

**Words.** Packing puts the parts of a word back where decoding found them: in each of the six
layouts, the fields and the immediate of a word make up the word again (`r_fields`, `i_immI`,
`s_immS`, `b_immB`, `u_immU`, `j_immJ`). `repack_decode` is the same for decoded instructions, packed
in the layout of the opcode. It holds of every word, also of one that no mnemonic claims.

**Instructions.** A word that is claimed by a mnemonic has the opcode of its row in the encoding
table, and the `funct3` as well where the decoder tests it (`opcode_of_op_decode`,
`funct3_of_op_decode`). The fields of a decoded instruction can be read as operand values
(`Instruction.values`). These are operands that exist and fit, and they are what the instruction
carries.
-/

namespace RefHart

theorem Word.toNat_mask_of_eq_bmod {v : Int} {n k : Nat} (h : v = (n : Int).bmod (2 ^ k))
    (hn : n < 2 ^ k) (hk : k ≤ 32) : (Word.mask v k).toNat = n := by
  have hpow : ((2 ^ k : Nat) : Int) = 2 ^ k := by push_cast; rfl
  have hmod : v % 2 ^ k = n := by
    rw [h, ← hpow, Int.bmod_emod, ← Int.natCast_emod, Nat.mod_eq_of_lt hn]
  exact Int.natCast_inj.1 ((Word.toNat_mask v k hk).trans hmod)

theorem Opcode.ofCode?_code (o : Opcode) : Opcode.ofCode? o.code = some o := by cases o <;> rfl

namespace Instruction

/-! ## Words from their parts -/

variable (w : Word)

theorem fields_lt :
    field w 31 25 < 128 ∧ field w 24 20 < 32 ∧ field w 19 15 < 32 ∧ field w 14 12 < 8 ∧
      field w 11 7 < 32 ∧ field w 6 0 < 128 :=
  ⟨field_lt w 31 25 (by decide), field_lt w 24 20 (by decide), field_lt w 19 15 (by decide),
    field_lt w 14 12 (by decide), field_lt w 11 7 (by decide), field_lt w 6 0 (by decide)⟩

theorem r_fields :
    Packing.r (field w 31 25) (field w 24 20) (field w 19 15) (field w 14 12) (field w 11 7)
      (field w 6 0) = w := by
  obtain ⟨h7, h2, h1, h3, hd, ho⟩ := fields_lt w
  apply BitVec.eq_of_toNat_eq
  rw [Packing.toNat_r _ _ _ h7 h3 ho, toNat_eq_fields w]
  omega

theorem i_immI :
    Packing.i (immI w).toInt (field w 19 15) (field w 14 12) (field w 11 7) (field w 6 0) = w := by
  obtain ⟨h7, h2, h1, h3, hd, ho⟩ := fields_lt w
  have hm := Word.toNat_mask_of_eq_bmod (toInt_immI w) (by omega) (by decide)
  apply BitVec.eq_of_toNat_eq
  rw [Packing.toNat_i _ _ _ h3 ho, hm, toNat_eq_fields w]
  omega

theorem s_immS :
    Packing.s (immS w).toInt (field w 24 20) (field w 19 15) (field w 14 12) (field w 6 0) = w := by
  obtain ⟨h7, h2, h1, h3, hd, ho⟩ := fields_lt w
  have hm := Word.toNat_mask_of_eq_bmod (toInt_immS w) (by omega) (by decide)
  apply BitVec.eq_of_toNat_eq
  rw [Packing.toNat_s _ _ _ h3 ho, hm, toNat_eq_fields w]
  omega

theorem parts_of_branch_offset {a b c d : Nat} (ha : a < 2) (hb : b < 2) (hc : c < 2 ^ 6)
    (hd : d < 2 ^ 4) :
    (a * 2 ^ 12 + b * 2 ^ 11 + c * 2 ^ 5 + d * 2) / 2 ^ 12 % 2 ^ 1 = a ∧
      (a * 2 ^ 12 + b * 2 ^ 11 + c * 2 ^ 5 + d * 2) / 2 ^ 11 % 2 ^ 1 = b ∧
      (a * 2 ^ 12 + b * 2 ^ 11 + c * 2 ^ 5 + d * 2) / 2 ^ 5 % 2 ^ 6 = c ∧
      (a * 2 ^ 12 + b * 2 ^ 11 + c * 2 ^ 5 + d * 2) / 2 ^ 1 % 2 ^ 4 = d := by
  omega

theorem b_immB :
    Packing.b (immB w).toInt (field w 24 20) (field w 19 15) (field w 14 12) (field w 6 0) = w := by
  obtain ⟨h7, h2, h1, h3, hd, ho⟩ := fields_lt w
  have hm := Word.toNat_mask_of_eq_bmod (toInt_immB w) (by omega) (by decide)
  obtain ⟨hsign, htop, hhigh, hlow⟩ :=
    parts_of_branch_offset (a := field w 31 25 / 2 ^ 6) (b := field w 11 7 % 2)
      (c := field w 31 25 % 2 ^ 6) (d := field w 11 7 / 2) (by omega) (by omega) (by omega) (by omega)
  apply BitVec.eq_of_toNat_eq
  rw [Packing.toNat_b _ _ _ h3 ho, hm, hsign, htop, hhigh, hlow, toNat_eq_fields w]
  omega

theorem toNat_immU_ushiftRight :
    (immU w >>> 12).toNat =
      field w 31 25 * 2 ^ 13 + field w 24 20 * 2 ^ 8 + field w 19 15 * 2 ^ 3 + field w 14 12 := by
  rw [BitVec.toNat_ushiftRight, Nat.shiftRight_eq_div_pow, toNat_immU w]
  omega

theorem u_immU : Packing.u (immU w >>> 12).toNat (field w 11 7) (field w 6 0) = w := by
  obtain ⟨h7, h2, h1, h3, hd, ho⟩ := fields_lt w
  have hm := Word.toNat_mask (immU w >>> 12).toNat 20 (by decide)
  rw [toNat_immU_ushiftRight] at hm
  apply BitVec.eq_of_toNat_eq
  rw [Packing.toNat_u _ _ ho, toNat_immU_ushiftRight, toNat_eq_fields w]
  omega

theorem parts_of_jump_offset {a b c d : Nat} (ha : a < 2) (hb : b < 2 ^ 8) (hc : c < 2)
    (hd : d < 2 ^ 10) :
    (a * 2 ^ 20 + b * 2 ^ 12 + c * 2 ^ 11 + d * 2) / 2 ^ 20 % 2 ^ 1 = a ∧
      (a * 2 ^ 20 + b * 2 ^ 12 + c * 2 ^ 11 + d * 2) / 2 ^ 12 % 2 ^ 8 = b ∧
      (a * 2 ^ 20 + b * 2 ^ 12 + c * 2 ^ 11 + d * 2) / 2 ^ 11 % 2 ^ 1 = c ∧
      (a * 2 ^ 20 + b * 2 ^ 12 + c * 2 ^ 11 + d * 2) / 2 ^ 1 % 2 ^ 10 = d := by
  omega

theorem j_immJ : Packing.j (immJ w).toInt (field w 11 7) (field w 6 0) = w := by
  obtain ⟨h7, h2, h1, h3, hd, ho⟩ := fields_lt w
  have hm := Word.toNat_mask_of_eq_bmod (toInt_immJ w) (by omega) (by decide)
  obtain ⟨hsign, hhigh, htop, hlow⟩ :=
    parts_of_jump_offset (a := field w 31 25 / 2 ^ 6) (b := field w 19 15 * 2 ^ 3 + field w 14 12)
      (c := field w 24 20 % 2) (d := field w 31 25 % 2 ^ 6 * 2 ^ 4 + field w 24 20 / 2)
      (by omega) (by omega) (by omega) (by omega)
  apply BitVec.eq_of_toNat_eq
  rw [Packing.toNat_j _ _ ho, hm, hsign, hhigh, htop, hlow, toNat_eq_fields w]
  omega

/-- An upper immediate can be shifted down with its sign as well: packing keeps 20 bits of it, and the
two shifts differ only above these. -/
theorem u_sshiftRight_immU :
    Packing.u ((immU w).sshiftRight 12).toInt (field w 11 7) (field w 6 0) = w := by
  have hmask : Word.mask ((immU w).sshiftRight 12).toInt 20 =
      Word.mask (immU w >>> 12).toNat 20 := by
    have hsigned := Word.toNat_mask ((immU w).sshiftRight 12).toInt 20 (by decide)
    have hunsigned := Word.toNat_mask (immU w >>> 12).toNat 20 (by decide)
    rw [BitVec.toInt_sshiftRight, Int.shiftRight_eq_div_pow, BitVec.toInt_eq_toNat_cond] at hsigned
    rw [BitVec.toNat_ushiftRight, Nat.shiftRight_eq_div_pow] at hunsigned
    apply BitVec.eq_of_toNat_eq
    rw [BitVec.toInt_sshiftRight, Int.shiftRight_eq_div_pow, BitVec.toInt_eq_toNat_cond,
      BitVec.toNat_ushiftRight, Nat.shiftRight_eq_div_pow]
    split_ifs at hsigned ⊢ <;> omega
  rw [Packing.u, hmask]
  exact u_immU w

/-! ## Decoded words and the encoding table -/

theorem code_of_ofCode? {code : Nat} {o : Opcode} (h : Opcode.ofCode? code = some o) :
    o.code = code := by
  unfold Opcode.ofCode? at h
  split at h <;> cases h <;> rfl

theorem funct3_registerOp {funct3 : Nat} (h : funct3 < 8) (funct7 : Nat) :
    (registerOp funct3 funct7).isPseudo = false ∧
      (registerOp funct3 funct7).description.funct3 = funct3 := by
  interval_cases funct3 <;> unfold registerOp <;> split <;> first | exact ⟨rfl, rfl⟩ | simp_all

theorem funct3_immediateOp {funct3 : Nat} (h : funct3 < 8) (imm : Word) :
    (immediateOp funct3 imm).isPseudo = false ∧
      (immediateOp funct3 imm).description.funct3 = funct3 := by
  interval_cases funct3 <;> unfold immediateOp <;> split_ifs <;> exact ⟨rfl, rfl⟩

theorem funct3_of_loadOp? {funct3 : Nat} {op : Mnemonic} (h : loadOp? funct3 = some op) :
    op.isPseudo = false ∧ op.description.funct3 = funct3 := by
  unfold loadOp? at h
  split at h <;> cases h <;> exact ⟨rfl, rfl⟩

theorem funct3_of_storeOp? {funct3 : Nat} {op : Mnemonic} (h : storeOp? funct3 = some op) :
    op.isPseudo = false ∧ op.description.funct3 = funct3 := by
  unfold storeOp? at h
  split at h <;> cases h <;> exact ⟨rfl, rfl⟩

theorem funct3_of_branchOp? {funct3 : Nat} {op : Mnemonic} (h : branchOp? funct3 = some op) :
    op.isPseudo = false ∧ op.description.funct3 = funct3 := by
  unfold branchOp? at h
  split at h <;> cases h <;> exact ⟨rfl, rfl⟩

theorem funct3_of_systemOp? {funct3 : Nat} {imm : Word} {op : Mnemonic}
    (h : systemOp? funct3 imm = some op) :
    op.isPseudo = false ∧ op.description.funct3 = funct3 := by
  unfold systemOp? at h
  split at h
  · split_ifs at h <;> cases h <;> exact ⟨rfl, rfl⟩
  all_goals cases h <;> exact ⟨rfl, rfl⟩

/-- The mnemonics that are found without a look at `funct3`. -/
def ignoresFunct3 (op : Mnemonic) : Prop := op.format = .u ∨ op.format = .j ∨ op = .jalr

theorem funct3_of_mnemonic? {opcode funct3 funct7 : Nat} {imm : Word} {op : Mnemonic}
    (h3 : funct3 < 8) (h : mnemonic? opcode funct3 funct7 imm = some op) :
    op.isPseudo = false ∧ (¬ ignoresFunct3 op → op.description.funct3 = funct3) := by
  unfold mnemonic? at h
  cases hcode : Opcode.ofCode? opcode with rw [hcode] at h
  | none => contradiction
  | some code =>
    cases code with
    | op => exact Option.some.inj h ▸ (funct3_registerOp h3 funct7).imp_right fun h _ => h
    | opImm => exact Option.some.inj h ▸ (funct3_immediateOp h3 imm).imp_right fun h _ => h
    | load => exact (funct3_of_loadOp? h).imp_right fun h _ => h
    | store => exact (funct3_of_storeOp? h).imp_right fun h _ => h
    | branch => exact (funct3_of_branchOp? h).imp_right fun h _ => h
    | system => exact (funct3_of_systemOp? h).imp_right fun h _ => h
    | lui | auipc =>
      exact Option.some.inj h ▸ ⟨rfl, fun hignores => absurd (.inl rfl) hignores⟩
    | jal => exact Option.some.inj h ▸ ⟨rfl, fun hignores => absurd (.inr (.inl rfl)) hignores⟩
    | jalr => exact Option.some.inj h ▸ ⟨rfl, fun hignores => absurd (.inr (.inr rfl)) hignores⟩

variable {w} {op : Mnemonic}

theorem opcode_of_op_decode (h : (decode w).op = some op) :
    field w 6 0 = op.description.opcode.code :=
  (code_of_ofCode? (ofCode?_of_mnemonic? h)).symm

theorem isPseudo_of_op_decode (h : (decode w).op = some op) : op.isPseudo = false :=
  (funct3_of_mnemonic? (fields_lt w).2.2.2.1 h).1

theorem funct3_of_op_decode (h : (decode w).op = some op) (hop : ¬ ignoresFunct3 op) :
    field w 14 12 = op.description.funct3 :=
  ((funct3_of_mnemonic? (fields_lt w).2.2.2.1 h).2 hop).symm

/-- The immediate of a claimed word is that of the mnemonic's format. -/
theorem imm_decode (h : (decode w).op = some op) : (decode w).imm = op.format.immediate w :=
  immediate_eq_of_opcode rfl (opcode_of_op_decode h)

/-! ## Decoded instructions, packed again -/

/-- The word that the fields of an instruction make up in the layout of an opcode. -/
def repack (d : Instruction) : Opcode → Word
  | .op => Packing.r d.funct7 d.rs2 d.rs1 d.funct3 d.rd d.opcode
  | .opImm | .load | .jalr | .system => Packing.i d.imm.toInt d.rs1 d.funct3 d.rd d.opcode
  | .store => Packing.s d.imm.toInt d.rs2 d.rs1 d.funct3 d.opcode
  | .branch => Packing.b d.imm.toInt d.rs2 d.rs1 d.funct3 d.opcode
  | .lui | .auipc => Packing.u (d.imm.sshiftRight 12).toInt d.rd d.opcode
  | .jal => Packing.j d.imm.toInt d.rd d.opcode

/-- The fields of a decoded word, packed again in the layout of its opcode, are the word. -/
theorem repack_decode (o : Opcode) (h : field w 6 0 = o.code) : (decode w).repack o = w := by
  have himm : (decode w).imm = immediate w := rfl
  rw [immediate, h, Opcode.ofCode?_code] at himm
  cases o with
  | op => exact r_fields w
  | opImm | load | jalr | system =>
    rw [repack, himm]
    exact i_immI w
  | store =>
    rw [repack, himm]
    exact s_immS w
  | branch =>
    rw [repack, himm]
    exact b_immB w
  | lui | auipc =>
    rw [repack, himm]
    exact u_sshiftRight_immU w
  | jal =>
    rw [repack, himm]
    exact j_immJ w

theorem repack_decode_bne :
    field 0xFE209EE3 6 0 = Opcode.branch.code ∧ (decode 0xFE209EE3).imm.toInt = -4 ∧
      (decode 0xFE209EE3).repack .branch = 0xFE209EE3 :=
  ⟨by decide, by decide, repack_decode .branch (by decide)⟩

/-! ## Decoded instructions as operand values -/

/-- The fields of an instruction as operands of a format. -/
def values (d : Instruction) (format : Format) : OperandValues :=
  match format with
  | .r => .registers d.rd d.rs1 d.rs2
  | .i => .immediate d.rd d.rs1 d.imm.toInt
  | .iShift => .shift d.rd d.rs1 (d.imm &&& 0x1F).toInt
  | .load => .load d.rd d.imm.toInt d.rs1
  | .s => .store d.rs2 d.imm.toInt d.rs1
  | .b => .branch d.rs1 d.rs2 d.imm.toInt
  | .u => .upper d.rd (d.imm >>> 12).toNat
  | .j => .jump d.rd d.imm.toInt
  | .csr => .csr d.rd (d.raw >>> 20).toNat d.rs1
  | .csrImm => .csrImmediate d.rd (d.raw >>> 20).toNat d.rs1
  | .system => .none

theorem format_values (d : Instruction) (format : Format) : (d.values format).format = format := by
  cases format <;> rfl

theorem toInt_and_31 (v : Word) : (v &&& 0x1F).toInt = ((v &&& 0x1F).toNat : Int) := by
  have hnat := Word.toNat_and_31 v
  exact BitVec.toInt_eq_toNat_of_lt (by omega)

theorem valid_values (format : Format) : ((decode w).values format).Valid := by
  obtain ⟨-, h2, h1, -, hd, -⟩ := fields_lt w
  have hcsr : (w >>> 20).toNat < 4096 := by
    rw [BitVec.toNat_ushiftRight, Nat.shiftRight_eq_div_pow]
    omega
  cases format with
  | r => exact ⟨hd, h1, h2⟩
  | i | iShift | load => exact ⟨hd, h1⟩
  | s => exact ⟨h2, h1⟩
  | b => exact ⟨h1, h2⟩
  | u | j => exact hd
  | csr => exact ⟨hd, hcsr, h1⟩
  | csrImm => exact ⟨hd, hcsr⟩
  | system => trivial

theorem toInt_mem_of_eq_bmod {v : Word} {n k : Nat} (h : v.toInt = (n : Int).bmod (2 ^ (k + 1))) :
    -2 ^ k ≤ v.toInt ∧ v.toInt < 2 ^ k := by
  have hpos : 0 < 2 ^ (k + 1) := by positivity
  have hle := Int.le_bmod (x := n) hpos
  have hlt := Int.bmod_lt (x := n) hpos
  rw [← h] at hle hlt
  push_cast [pow_succ] at hle hlt
  omega

theorem even_toInt {v : Word} (h : v.toNat % 2 = 0) : v.toInt % 2 = 0 := by
  rw [BitVec.toInt_eq_toNat_cond]
  split_ifs <;> omega

theorem fits_values (h : (decode w).op = some op) : ((decode w).values op.format).Fits := by
  have himm := imm_decode h
  cases hf : op.format with rw [hf] at himm
  | r | csr | system => trivial
  | i | load =>
    obtain ⟨hle, hlt⟩ := toInt_mem_of_eq_bmod (k := 11) (toInt_immI w)
    rw [values, OperandValues.Fits, himm, Format.immediate]
    omega
  | iShift =>
    rw [values, OperandValues.Fits, toInt_and_31, Word.toNat_and_31]
    omega
  | s =>
    obtain ⟨hle, hlt⟩ := toInt_mem_of_eq_bmod (k := 11) (toInt_immS w)
    rw [values, OperandValues.Fits, himm, Format.immediate]
    omega
  | b =>
    obtain ⟨hle, hlt⟩ := toInt_mem_of_eq_bmod (k := 12) (toInt_immB w)
    have heven := even_toInt (even_immB w)
    rw [values, OperandValues.Fits, himm, Format.immediate]
    omega
  | u =>
    obtain ⟨h7, h2, h1, h3, -, -⟩ := fields_lt w
    rw [values, OperandValues.Fits, himm, Format.immediate, toNat_immU_ushiftRight]
    omega
  | j =>
    obtain ⟨hle, hlt⟩ := toInt_mem_of_eq_bmod (k := 20) (toInt_immJ w)
    have heven := even_toInt (even_immJ w)
    rw [values, OperandValues.Fits, himm, Format.immediate]
    omega
  | csrImm =>
    obtain ⟨-, -, h1, -, -, -⟩ := fields_lt w
    exact ⟨Int.natCast_nonneg _, by exact_mod_cast Nat.le_of_lt_succ h1⟩

theorem signed12_of_lt {v : Int} (h : v < 2 ^ 11) : signed12 v = v := if_pos (by omega)

/-- A decoded instruction carries the values of its own fields. -/
theorem carries_values (h : (decode w).op = some op) :
    (decode w).Carries ((decode w).values op.format) := by
  have himm := imm_decode h
  cases hf : op.format with rw [hf] at himm
  | r | csr => exact ⟨rfl, rfl, rfl⟩
  | csrImm => exact ⟨rfl, rfl, rfl⟩
  | system => trivial
  | i | load =>
    obtain ⟨-, hlt⟩ := toInt_mem_of_eq_bmod (k := 11) (toInt_immI w)
    exact ⟨rfl, rfl, (signed12_of_lt (himm ▸ hlt)).symm⟩
  | s =>
    obtain ⟨-, hlt⟩ := toInt_mem_of_eq_bmod (k := 11) (toInt_immS w)
    exact ⟨rfl, rfl, (signed12_of_lt (himm ▸ hlt)).symm⟩
  | iShift => exact ⟨rfl, rfl, (toInt_and_31 _).symm⟩
  | b => exact ⟨rfl, rfl, rfl⟩
  | j => exact ⟨rfl, rfl⟩
  | u =>
    obtain ⟨h7, h2, h1, h3, -, -⟩ := fields_lt w
    refine ⟨rfl, ?_⟩
    rw [himm, Format.immediate, toNat_immU, toNat_immU_ushiftRight]
    omega

end Instruction

end RefHart
