import Mathlib
import RefHart.Proofs.Decoding
import RefHart.Proofs.Operands

/-!
# Encoding, then decoding

**Theorem (`decode_encode`).** Whatever the operands, the decoder finds the encoded mnemonic back in
the word. If encoding notes nothing, the decoded fields carry the values that the operand tokens
denote.

Every word that encoding gives is packed from values of the right format
(`Operands.value_encode`), so both parts are about `OperandValues.pack`. The mnemonic comes
back because the decoder agrees with the encoding table on the few bits that it looks at, the values
because the layouts do not overlap and immediates are gathered the way they were scattered.
-/

namespace RefHart

open Instruction

/-! ## What a decoded word carries -/

/-- The number that an immediate of twelve bits stands for: from 2048 on it is read in two's
complement. -/
def signed12 (v : Int) : Int := if v ≤ 2047 then v else v - 4096

/-- The fields of an instruction are the values of its operands. -/
def Instruction.Carries (d : Instruction) : OperandValues → Prop
  | .registers rd rs1 rs2 => d.rd = rd ∧ d.rs1 = rs1 ∧ d.rs2 = rs2
  | .immediate rd rs1 v => d.rd = rd ∧ d.rs1 = rs1 ∧ d.imm.toInt = signed12 v
  | .shift rd rs1 amount => d.rd = rd ∧ d.rs1 = rs1 ∧ ((d.imm &&& 31).toNat : Int) = amount
  | .load rd offset base => d.rd = rd ∧ d.rs1 = base ∧ d.imm.toInt = signed12 offset
  | .store rs2 offset base => d.rs2 = rs2 ∧ d.rs1 = base ∧ d.imm.toInt = signed12 offset
  | .branch rs1 rs2 offset => d.rs1 = rs1 ∧ d.rs2 = rs2 ∧ d.imm.toInt = offset
  | .upper rd v => d.rd = rd ∧ (d.imm.toNat : Int) = v * 2 ^ 12 % 2 ^ 32
  | .jump rd offset => d.rd = rd ∧ d.imm.toInt = offset
  | .csr rd address rs1 => d.rd = rd ∧ (d.raw >>> 20).toNat = address ∧ d.rs1 = rs1
  | .csrImmediate rd address v =>
    d.rd = rd ∧ (d.raw >>> 20).toNat = address ∧ (d.rs1 : Int) = v
  | .none => True

/-! ## Immediates by format -/

/-- The immediate of a word in the given format. -/
def Format.immediate : Format → Word → Word
  | .r => fun _ => 0
  | .i | .iShift | .load | .csr | .csrImm | .system => immI
  | .s => immS
  | .b => immB
  | .u => immU
  | .j => immJ

theorem immediate_eq_of_opcode {m : Mnemonic} {f : Format} {w : Word} (hf : f = m.format)
    (h : field w 6 0 = m.description.opcode.code) : immediate w = f.immediate w := by
  subst hf
  cases m <;> rw [immediate, h] <;> rfl

theorem bmod_eq_signed12 {v : Int} (h : -2048 ≤ v ∧ v ≤ 4095) : v.bmod (2 ^ 12) = signed12 v := by
  rw [Int.bmod_def, signed12]
  split_ifs <;> omega

theorem bmod_eq_of_even {v : Int} {k : Nat} (h : -2 ^ k ≤ v) (h' : v < 2 ^ k) (he : v % 2 = 0) :
    (v / 2 * 2).bmod (2 ^ (k + 1)) = v := by
  rw [Int.ediv_mul_cancel (Int.dvd_of_emod_eq_zero he)]
  apply Int.bmod_eq_of_le <;> push_cast <;> rw [pow_succ] <;> omega

theorem toNat_ushiftRight_twenty (w : Word) :
    (w >>> 20).toNat = field w 31 25 * 32 + field w 24 20 := by
  rw [BitVec.toNat_ushiftRight, Nat.shiftRight_eq_div_pow, toNat_eq_fields w]
  have h2 := field_lt w 24 20 (by decide)
  have h1 := field_lt w 19 15 (by decide)
  have h3 := field_lt w 14 12 (by decide)
  have hd := field_lt w 11 7 (by decide)
  have ho := field_lt w 6 0 (by decide)
  omega

theorem toNat_ushiftRight_twenty_i {address : Nat} (ha : address < 4096) (rs1 rd : Nat)
    {funct3 opcode : Nat} (h3 : funct3 < 8) (ho : opcode < 128) :
    (Packing.i address rs1 funct3 rd opcode >>> 20).toNat = address := by
  obtain ⟨h7, h2, -⟩ := fields_i address rs1 rd h3 ho
  have hm := Word.toNat_mask address 12 (by decide)
  rw [toNat_ushiftRight_twenty, h7, h2]
  omega

/-! ## The two halves of the round trip -/

/-- The bits of a shift's immediate: the amount, and bit 10 for an arithmetic shift. -/
theorem immI_shift {m : Mnemonic} (hm : m.format = .iShift) (amount : Int) (rs1 rd : Nat) :
    (immI (Packing.i (m.description.funct7 * 32 + amount % 32) rs1 m.description.funct3 rd
      m.description.opcode.code)).toNat = m.description.funct7 * 32 + (amount % 32).toNat := by
  have hi := toInt_immI_i (m.description.funct7 * 32 + amount % 32) rs1 rd m.funct3_lt
    m.description.opcode.code_lt
  have h7 : m.description.funct7 ≤ 32 := by cases m <;> decide
  rw [Int.bmod_eq_of_le (by omega) (by omega)] at hi
  rw [BitVec.toInt_eq_toNat_cond] at hi
  split_ifs at hi <;> omega

/-- Where the decoder looks at `funct3`. -/
theorem op_decode {m : Mnemonic} (hm : m.isPseudo = false) {w : Word}
    (ho : field w 6 0 = m.description.opcode.code) (h3 : field w 14 12 = m.description.funct3)
    (hr : m.format = .r → field w 31 25 = m.description.funct7)
    (hshift : m.format = .iShift → (immI w).getLsbD 10 = (m.description.funct7 == 0x20))
    (hsystem : m.format = .system → (immI w = 1 ↔ m = .ebreak)) : (decode w).op = some m := by
  have himm := immediate_eq_of_opcode rfl ho
  rw [decode, ho, h3, himm]
  refine mnemonic?_description hm hr ?_ ?_
  · intro hf
    rw [hf]
    exact hshift hf
  · intro hf
    rw [hf]
    exact hsystem hf

/-- In most formats the decoder does not look any further. -/
theorem op_decode_of_format {m : Mnemonic} (hm : m.isPseudo = false) {w : Word}
    (ho : field w 6 0 = m.description.opcode.code) (h3 : field w 14 12 = m.description.funct3)
    (hf : m.format ∉ [Format.r, .iShift, .system]) : (decode w).op = some m := by
  simp only [List.mem_cons, List.not_mem_nil, or_false, not_or] at hf
  obtain ⟨hr, hshift, hsystem⟩ := hf
  exact op_decode hm ho h3 (absurd · hr) (absurd · hshift) (absurd · hsystem)

theorem op_decode_pack {m : Mnemonic} (hm : m.isPseudo = false) {v : OperandValues}
    (hv : v.format = m.format) : (decode (v.pack m)).op = some m := by
  have h3 := m.funct3_lt
  have h7 := m.funct7_lt
  have ho := m.description.opcode.code_lt
  cases v with
  | registers rd rs1 rs2 =>
    obtain ⟨hf7, -, -, hf3, -, hop⟩ := fields_r rs2 rs1 rd h7 h3 ho
    have hf : m.format = .r := hv.symm
    exact op_decode hm hop hf3 (fun _ => hf7) (by simp [hf]) (by simp [hf])
  | immediate rd rs1 v | load rd v rs1 | csr rd v rs1 | csrImmediate rd v rs1 =>
    obtain ⟨-, -, -, hf3, -, hop⟩ := fields_i v _ rd h3 ho
    exact op_decode_of_format hm hop hf3 (by simp [← hv, OperandValues.format])
  | shift rd rs1 amount =>
    obtain ⟨-, -, -, hf3, -, hop⟩ := fields_i (m.description.funct7 * 32 + amount % 32) rs1 rd h3 ho
    have hf : m.format = .iShift := hv.symm
    refine op_decode hm hop hf3 (by simp [hf]) (fun _ => ?_) (by simp [hf])
    -- `funct7` starts at bit 5 of the immediate, so bit 10 is the one that marks an arithmetic shift.
    have hi := immI_shift hv.symm amount rs1 rd
    have hlt : (amount % 32).toNat < 32 := by omega
    have hf7 : m.description.funct7 = 0 ∨ m.description.funct7 = 0x20 := by
      cases m <;> first | decide | cases hv
    rw [OperandValues.pack, BitVec.getLsbD, hi, Nat.testBit_eq_decide_div_mod_eq]
    rcases hf7 with h | h <;> rw [h]
    · exact decide_eq_false (by omega)
    · exact decide_eq_true (by omega)
  | store rs2 offset base =>
    obtain ⟨-, -, -, hf3, -, hop⟩ := fields_s offset rs2 base h3 ho
    exact op_decode_of_format hm hop hf3 (by simp [← hv, OperandValues.format])
  | branch rs1 rs2 offset =>
    obtain ⟨-, -, -, hf3, -, hop⟩ := fields_b offset rs2 rs1 h3 ho
    exact op_decode_of_format hm hop hf3 (by simp [← hv, OperandValues.format])
  | upper rd v =>
    obtain ⟨-, -, -, -, -, hop⟩ := fields_u v rd ho
    rw [decode, OperandValues.pack, hop]
    cases m <;> first | rfl | cases hv
  | jump rd offset =>
    obtain ⟨-, -, -, -, -, hop⟩ := fields_j offset rd ho
    rw [decode, OperandValues.pack, hop]
    cases m <;> first | rfl | cases hv
  | none =>
    cases m <;> first | decide | cases hv

theorem carries_decode_pack {m : Mnemonic} {v : OperandValues} (hv : v.format = m.format)
    (hfits : v.Fits) (hvalid : v.Valid) : (decode (v.pack m)).Carries v := by
  have h3 := m.funct3_lt
  have h7 := m.funct7_lt
  have ho := m.description.opcode.code_lt
  cases v with
  | registers rd rs1 rs2 =>
    obtain ⟨hd, h1, h2⟩ := hvalid
    obtain ⟨-, hf2, hf1, -, hfd, -⟩ := fields_r rs2 rs1 rd h7 h3 ho
    exact ⟨hfd.trans (Nat.mod_eq_of_lt hd), hf1.trans (Nat.mod_eq_of_lt h1),
      hf2.trans (Nat.mod_eq_of_lt h2)⟩
  | immediate rd rs1 v | load rd v rs1 =>
    obtain ⟨hd, h1⟩ := hvalid
    obtain ⟨-, -, hf1, -, hfd, hop⟩ := fields_i v rs1 rd h3 ho
    refine ⟨hfd.trans (Nat.mod_eq_of_lt hd), hf1.trans (Nat.mod_eq_of_lt h1), ?_⟩
    have himm := immediate_eq_of_opcode hv hop
    calc (immediate (Packing.i v rs1 m.description.funct3 rd m.description.opcode.code)).toInt
        = v.bmod (2 ^ 12) := by rw [himm]; exact toInt_immI_i v rs1 rd h3 ho
      _ = signed12 v := bmod_eq_signed12 hfits
  | shift rd rs1 amount =>
    obtain ⟨hd, h1⟩ := hvalid
    obtain ⟨h0, h31⟩ := hfits
    obtain ⟨-, -, hf1, -, hfd, hop⟩ :=
      fields_i (m.description.funct7 * 32 + amount % 32) rs1 rd h3 ho
    refine ⟨hfd.trans (Nat.mod_eq_of_lt hd), hf1.trans (Nat.mod_eq_of_lt h1), ?_⟩
    have himm := immediate_eq_of_opcode hv hop
    have hi := immI_shift hv.symm amount rs1 rd
    rw [Word.toNat_and_31, OperandValues.pack, decode, himm, OperandValues.format, Format.immediate, hi]
    omega
  | store rs2 offset base =>
    obtain ⟨h2, h1⟩ := hvalid
    obtain ⟨-, hf2, hf1, -, -, hop⟩ := fields_s offset rs2 base h3 ho
    refine ⟨hf2.trans (Nat.mod_eq_of_lt h2), hf1.trans (Nat.mod_eq_of_lt h1), ?_⟩
    have himm := immediate_eq_of_opcode hv hop
    calc (immediate (Packing.s offset rs2 base m.description.funct3 m.description.opcode.code)).toInt
        = offset.bmod (2 ^ 12) := by rw [himm]; exact toInt_immS_s offset rs2 base h3 ho
      _ = signed12 offset := bmod_eq_signed12 hfits
  | branch rs1 rs2 offset =>
    obtain ⟨h1, h2⟩ := hvalid
    obtain ⟨hmin, hmax, heven⟩ := hfits
    obtain ⟨-, hf2, hf1, -, -, hop⟩ := fields_b offset rs2 rs1 h3 ho
    refine ⟨hf1.trans (Nat.mod_eq_of_lt h1), hf2.trans (Nat.mod_eq_of_lt h2), ?_⟩
    have himm := immediate_eq_of_opcode hv hop
    calc (immediate (Packing.b offset rs2 rs1 m.description.funct3 m.description.opcode.code)).toInt
        = (offset / 2 * 2).bmod (2 ^ 13) := by rw [himm]; exact toInt_immB_b offset rs2 rs1 h3 ho
      _ = offset := bmod_eq_of_even (k := 12) (by omega) (by omega) heven
  | upper rd v =>
    obtain ⟨-, -, -, -, hfd, hop⟩ := fields_u v rd ho
    refine ⟨hfd.trans (Nat.mod_eq_of_lt hvalid), ?_⟩
    have himm := immediate_eq_of_opcode hv hop
    calc ((immediate (Packing.u v rd m.description.opcode.code)).toNat : Int)
        = v % 2 ^ 20 * 2 ^ 12 := by rw [himm]; exact toNat_immU_u v rd ho
      _ = v * 2 ^ 12 % 2 ^ 32 := by omega
  | jump rd offset =>
    obtain ⟨hmin, hmax, heven⟩ := hfits
    obtain ⟨-, -, -, -, hfd, hop⟩ := fields_j offset rd ho
    refine ⟨hfd.trans (Nat.mod_eq_of_lt hvalid), ?_⟩
    have himm := immediate_eq_of_opcode hv hop
    calc (immediate (Packing.j offset rd m.description.opcode.code)).toInt
        = (offset / 2 * 2).bmod (2 ^ 21) := by rw [himm]; exact toInt_immJ_j offset rd ho
      _ = offset := bmod_eq_of_even (k := 20) (by omega) (by omega) heven
  | csr rd address rs1 =>
    obtain ⟨hd, ha, h1⟩ := hvalid
    obtain ⟨-, -, hf1, -, hfd, -⟩ := fields_i address rs1 rd h3 ho
    exact ⟨hfd.trans (Nat.mod_eq_of_lt hd), toNat_ushiftRight_twenty_i ha rs1 rd h3 ho,
      hf1.trans (Nat.mod_eq_of_lt h1)⟩
  | csrImmediate rd address v =>
    obtain ⟨hd, ha⟩ := hvalid
    obtain ⟨h0, h31⟩ := hfits
    obtain ⟨-, -, hf1, -, hfd, -⟩ := fields_i address (v % 32).toNat rd h3 ho
    refine ⟨hfd.trans (Nat.mod_eq_of_lt hd), toNat_ushiftRight_twenty_i ha _ rd h3 ho, ?_⟩
    calc ((field _ 19 15 : Nat) : Int)
        = ((v % 32).toNat % 32 : Nat) := congrArg Nat.cast hf1
      _ = v := by omega
  | none => trivial

/-! ## The round trip -/

theorem Mnemonic.isPseudo_canonical (m : Mnemonic) : m.canonical.isPseudo = false := by
  cases m <;> rfl

theorem Mnemonic.canonical_of_isPseudo_eq_false {op : Mnemonic} (h : op.isPseudo = false) :
    op.canonical = op := by
  cases op <;> first | rfl | contradiction

/-- Also with operands that cannot be read or do not fit, an encoded word is a packed one. -/
theorem exists_pack_of_encode (m : Mnemonic) (tokens : List Text) (labels : LabelTable)
    (address : Word) :
    ∃ v : OperandValues, v.format = m.canonical.format ∧
      (encode m tokens labels address).value = v.pack m.canonical :=
  let o : Operands := ⟨m.canonical, canonicalOperands m tokens, labels, address⟩
  ⟨o.readValues, o.format_readValues, o.value_encode⟩

theorem op_decode_encode (m : Mnemonic) (tokens : List Text) (labels : LabelTable) (address : Word) :
    (decode (encode m tokens labels address).value).op = some m.canonical := by
  obtain ⟨v, hv, hword⟩ := exists_pack_of_encode m tokens labels address
  rw [hword, op_decode_pack m.isPseudo_canonical hv]

/-- The decoder finds the mnemonic back in every encoded word, and in the word of operands without
errors also their values. -/
theorem decode_encode (m : Mnemonic) (tokens : List Text) (labels : LabelTable) (address : Word) :
    let o : Operands := ⟨m.canonical, canonicalOperands m tokens, labels, address⟩
    let encoded := encode m tokens labels address
    let d := decode encoded.value
    d.op = some m.canonical ∧
      (encoded.errors = [] → ∃ v, o.values? = some v ∧ v.Fits ∧ d.Carries v) := by
  intro o encoded d
  have hformat : o.readValues.format = m.canonical.format := o.format_readValues
  have hd : d = decode (o.readValues.pack m.canonical) := congrArg decode o.value_encode
  rw [hd]
  refine ⟨op_decode_pack m.isPseudo_canonical hformat, ?_⟩
  intro herrors
  obtain ⟨hv, hfits⟩ := Operands.values?_of_errors_encode herrors
  exact ⟨_, hv, hfits, carries_decode_pack hformat hfits (Operands.valid_of_values? hv)⟩

/-- A pseudo-branch back to a label: its registers come back exchanged. -/
theorem decode_encode_bgt :
    (encode .bgt ["a0", "x5", "loop"] ((∅ : LabelTable).insert "loop" 4) 12).errors = [] ∧
      ∃ v, Operands.values? ⟨.blt, ["x5", "a0", "loop"], (∅ : LabelTable).insert "loop" 4, 12⟩ =
          some v ∧ v.Fits ∧ (decode (encode .bgt ["a0", "x5", "loop"]
            ((∅ : LabelTable).insert "loop" 4) 12).value).Carries v :=
  have h : (encode .bgt ["a0", "x5", "loop"] ((∅ : LabelTable).insert "loop" 4) 12).errors = [] := by
    decide
  ⟨h, (decode_encode .bgt ["a0", "x5", "loop"] ((∅ : LabelTable).insert "loop" 4) 12).2 h⟩

end RefHart
