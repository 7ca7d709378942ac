import Mathlib
import RefHart.Proofs.Operands
import RefHart.Proofs.Packing

/-!
# The bit fields of an instruction word

Every number that goes into an instruction word has a `BitField` there, be it a register, an immediate
or an entry of the encoding table. A field consists of `Piece`s, each a run of bits of the number that
stands together in the word; only the offsets of stores, branches and jumps are in more than one piece.

**Bits of packed words.** A bit of a packed word is the `or` of what the numbers bring to it
(`OperandValues.getLsbD_pack`). The fields of a format have no bit in common (`Format.pairwise_apart`),
so every number is seen undisturbed in its own field (`OperandValues.holds_pack`), also a number that
is too large for the field or negative.
-/

namespace RefHart

/-! ## Pieces -/

/-- The bits of a number from `start` on that stand in a word from bit `place` on, `width` of them. -/
structure Piece where
  place : Nat
  start : Nat
  width : Nat
  deriving DecidableEq, Repr

namespace Piece

/-- Whether a bit of the word belongs to the piece. -/
def Covers (s : Piece) (p : Nat) : Prop := s.place ≤ p ∧ p < s.place + s.width

/-- Whether two pieces have no bit of the word in common. -/
def Apart (s t : Piece) : Prop := s.place + s.width ≤ t.place ∨ t.place + t.width ≤ s.place

instance (s : Piece) (p : Nat) : Decidable (s.Covers p) :=
  inferInstanceAs (Decidable (_ ∧ _))

instance (s t : Piece) : Decidable (s.Apart t) :=
  inferInstanceAs (Decidable (_ ∨ _))

instance : Std.Symm Apart := ⟨fun _ _ => Or.symm⟩

/-- What the piece of a number brings to a bit of the word. -/
def bit (s : Piece) (v : Int) (p : Nat) : Bool :=
  if s.Covers p then v.testBit (s.start + (p - s.place)) else false

theorem bit_of_covers {s : Piece} {p : Nat} (h : s.Covers p) (v : Int) :
    s.bit v p = v.testBit (s.start + (p - s.place)) := if_pos h

theorem bit_of_not_covers {s : Piece} {p : Nat} (h : ¬ s.Covers p) (v : Int) : s.bit v p = false :=
  if_neg h

theorem bit_zero (s : Piece) (p : Nat) : s.bit 0 p = false := by
  have hzero : (0 : Int).testBit (s.start + (p - s.place)) = false := Nat.zero_testBit _
  rw [bit, hzero, ite_self]

theorem Apart.not_covers {s t : Piece} (h : s.Apart t) {p : Nat} (hp : s.Covers p) :
    ¬ t.Covers p := by
  unfold Apart Covers at *
  omega

end Piece

/-- In a word made of pieces that are apart, each piece shows its own number. -/
theorem getLsbD_of_pairwise_apart {word : Word} {p : Nat} {l : List (Piece × Int)}
    (hword : word.getLsbD p = l.any fun x => x.1.bit x.2 p)
    (hapart : (l.map (·.1)).Pairwise Piece.Apart) {s : Piece} {v : Int} (hmem : (s, v) ∈ l)
    (hp : s.Covers p) : word.getLsbD p = v.testBit (s.start + (p - s.place)) := by
  have hother : ∀ x ∈ l, x ≠ (s, v) → x.1.bit x.2 p = false := by
    intro x hx hne
    have hsx : (s, v).1.Apart x.1 := (List.pairwise_map.1 hapart).forall hmem hx hne.symm
    exact Piece.bit_of_not_covers (hsx.not_covers hp) x.2
  rw [hword, ← Piece.bit_of_covers hp, Bool.eq_iff_iff, List.any_eq_true]
  constructor
  · rintro ⟨x, hx, hbit⟩
    by_cases heq : x = (s, v)
    · subst heq
      exact hbit
    · rw [hother x hx heq] at hbit
      contradiction
  · intro hbit
    exact ⟨(s, v), hmem, hbit⟩

/-! ## Fields -/

/-- The fields of an instruction word. A shift amount stands where `rs2` does, the address of a CSR
where an immediate of twelve bits does, and the immediate of a CSR access where `rs1` does. -/
inductive BitField where
  | opcode | funct3 | funct7
  | rd | rs1 | rs2
  | immI | immS | immB | immU | immJ
  deriving DecidableEq, Repr

namespace BitField

/-- The pieces of a field. -/
def pieces : BitField → List Piece
  | opcode => [⟨0, 0, 7⟩]
  | funct3 => [⟨12, 0, 3⟩]
  | funct7 => [⟨25, 0, 7⟩]
  | rd => [⟨7, 0, 5⟩]
  | rs1 => [⟨15, 0, 5⟩]
  | rs2 => [⟨20, 0, 5⟩]
  | immI => [⟨20, 0, 12⟩]
  | immS => [⟨25, 5, 7⟩, ⟨7, 0, 5⟩]
  | immB => [⟨31, 12, 1⟩, ⟨25, 5, 6⟩, ⟨8, 1, 4⟩, ⟨7, 11, 1⟩]
  | immU => [⟨12, 0, 20⟩]
  | immJ => [⟨31, 20, 1⟩, ⟨21, 1, 10⟩, ⟨20, 11, 1⟩, ⟨12, 12, 8⟩]

/-- Whether a bit of the word belongs to the field. -/
def Covers (field : BitField) (p : Nat) : Prop := ∃ s ∈ field.pieces, s.Covers p

/-- What a number in the field brings to a bit of the word. -/
def bit (field : BitField) (v : Int) (p : Nat) : Bool := field.pieces.any fun s => s.bit v p

theorem bit_of_not_covers {field : BitField} {p : Nat} (h : ¬ field.Covers p) (v : Int) :
    field.bit v p = false := by
  refine List.any_eq_false.2 fun s hs => ?_
  rw [Piece.bit_of_not_covers fun hp => h ⟨s, hs, hp⟩]
  exact Bool.false_ne_true

@[simp] theorem bit_zero (field : BitField) (p : Nat) : field.bit 0 p = false := by
  refine List.any_eq_false.2 fun s _ => ?_
  rw [Piece.bit_zero]
  exact Bool.false_ne_true

/-- Whether a word holds, in a field, the bits of a number that belong there. -/
def Holds (field : BitField) (word : Word) (v : Int) : Prop :=
  ∀ s ∈ field.pieces, ∀ k < s.width, word.getLsbD (s.place + k) = v.testBit (s.start + k)

theorem getLsbD_of_holds_zero {field : BitField} {word : Word} (h : field.Holds word 0) {p : Nat}
    (hp : field.Covers p) : word.getLsbD p = false := by
  obtain ⟨s, hs, hmin, hmax⟩ := hp
  obtain ⟨k, rfl⟩ := Nat.exists_eq_add_of_le hmin
  rw [h s hs k (by omega)]
  exact Nat.zero_testBit _

/-- In a word made of numbers whose fields are apart, each number stands in its own field. -/
theorem holds_of_mem {word : Word} {l : List (BitField × Int)}
    (hword : ∀ p, word.getLsbD p = l.any fun x => x.1.bit x.2 p)
    (hapart : ((l.map (·.1)).flatMap pieces).Pairwise Piece.Apart) {field : BitField} {v : Int}
    (hmem : (field, v) ∈ l) : field.Holds word v := by
  intro s hs k hk
  have hp : s.Covers (s.place + k) := ⟨by omega, by omega⟩
  have hbit : word.getLsbD (s.place + k) =
      (l.flatMap fun x => x.1.pieces.map (·, x.2)).any fun y => y.1.bit y.2 (s.place + k) := by
    rw [hword, List.any_flatMap]
    simp only [List.any_map]
    rfl
  have hmap : (l.flatMap fun x => x.1.pieces.map (·, x.2)).map (·.1) =
      (l.map (·.1)).flatMap pieces := by
    simp [List.map_flatMap, List.flatMap_map, Function.comp_def]
  have hget := getLsbD_of_pairwise_apart hbit (hmap ▸ hapart)
    (List.mem_flatMap.2 ⟨_, hmem, List.mem_map.2 ⟨s, hs, rfl⟩⟩) hp
  rwa [Nat.add_sub_cancel_left] at hget

end BitField

/-! ## Bits of packed words -/

namespace Word

theorem getLsbD_ones {width k : Nat} (h : width ≤ 32) (hk : k < width) :
    (ones width).getLsbD k = true := by
  rw [ones, BitVec.getLsbD_ushiftRight, BitVec.getLsbD_allOnes]
  exact decide_eq_true (by omega)

theorem getLsbD_ofInt (v : Int) {k : Nat} (h : k < 32) :
    (BitVec.ofInt 32 v).getLsbD k = v.testBit k := by
  cases v with
  | ofNat n =>
    rw [Int.ofNat_eq_natCast, BitVec.ofInt_natCast, BitVec.getLsbD_ofNat]
    simp [h, Int.testBit]
  | negSucc n =>
    rw [BitVec.ofInt_negSucc_eq_not_ofNat, BitVec.getLsbD_not, BitVec.getLsbD_ofNat]
    simp [h, Int.testBit]

theorem getLsbD_mask (v : Int) {width k : Nat} (h : width ≤ 32) (hk : k < width) :
    (mask v width).getLsbD k = v.testBit k := by
  rw [mask, BitVec.getLsbD_and, getLsbD_ones h hk, getLsbD_ofInt v (by omega), Bool.and_true]

theorem getLsbD_bits (v : Word) {hi lo k : Nat} (h : hi - lo < 32) (hk : k < hi - lo + 1) :
    (v.bits hi lo).getLsbD k = v.getLsbD (lo + k) := by
  rw [bits, BitVec.getLsbD_and, getLsbD_ones h hk, BitVec.getLsbD_ushiftRight, Bool.and_true]

theorem getLsbD_extendSign (v : Word) {width k : Nat} (h : k < width) (h' : width ≤ 32) :
    (extendSign v width).getLsbD k = v.getLsbD k := by
  have hinside : 32 - width + k < 32 := by omega
  rw [extendSign, BitVec.getLsbD_sshiftRight, BitVec.getLsbD_shiftLeft]
  simp [hinside, show ¬ 32 ≤ k by omega]

/-- A part moved to its place brings what the piece brings. -/
theorem getLsbD_shiftLeft_eq_bit {x : Word} {v : Int} {s : Piece} (hs : s.place + s.width ≤ 32)
    (hx : x.toNat < 2 ^ s.width) (hbits : ∀ k < s.width, x.getLsbD k = v.testBit (s.start + k))
    (p : Nat) : (x <<< s.place).getLsbD p = s.bit v p := by
  rw [BitVec.getLsbD_shiftLeft]
  by_cases hmin : s.place ≤ p
  · by_cases hmax : p < s.place + s.width
    · have hp : p < 32 := by omega
      rw [Piece.bit_of_covers ⟨hmin, hmax⟩, hbits _ (by omega)]
      simp [hp, hmin]
    · have hhigh : x.getLsbD (p - s.place) = false :=
        Nat.testBit_lt_two_pow (hx.trans_le (Nat.pow_le_pow_right (by decide) (by omega)))
      rw [Piece.bit_of_not_covers fun h => hmax h.2, hhigh, Bool.and_false]
  · rw [Piece.bit_of_not_covers fun h => hmin h.1]
    simp [Nat.lt_of_not_le hmin]

end Word

namespace Packing

theorem getLsbD_mask_shiftLeft (v : Int) {width place : Nat} (h : place + width ≤ 32) (p : Nat) :
    (Word.mask v width <<< place).getLsbD p = Piece.bit ⟨place, 0, width⟩ v p := by
  refine Word.getLsbD_shiftLeft_eq_bit (s := ⟨place, 0, width⟩) h
    (Word.toNat_mask_lt v width (by omega)) ?_ p
  intro k hk
  have hk' : k < width := hk
  rw [Word.getLsbD_mask v (by omega) hk', Nat.zero_add]

theorem getLsbD_mask_bits (v : Int) {width hi lo place : Nat} (hwidth : width ≤ 32)
    (hlo : lo ≤ hi) (hhi : hi < width) (h : place + (hi - lo + 1) ≤ 32) (p : Nat) :
    ((Word.mask v width).bits hi lo <<< place).getLsbD p =
      Piece.bit ⟨place, lo, hi - lo + 1⟩ v p := by
  refine Word.getLsbD_shiftLeft_eq_bit (s := ⟨place, lo, hi - lo + 1⟩) h ?_ ?_ p
  · rw [Word.toNat_bits _ (by omega)]
    exact Nat.mod_lt _ (by positivity)
  · intro k hk
    have hk' : k < hi - lo + 1 := hk
    rw [Word.getLsbD_bits _ (by omega) hk, Word.getLsbD_mask v hwidth (by omega)]

theorem getLsbD_register (r : Nat) {lsb : Nat} (h : lsb + 5 ≤ 32) (p : Nat) :
    (register r lsb).getLsbD p = Piece.bit ⟨lsb, 0, 5⟩ r p := by
  have hones : (0x1F : Word) = Word.ones 5 := by decide
  have hmask : BitVec.ofNat 32 r &&& Word.ones 5 = Word.mask r 5 := by
    rw [Word.mask, BitVec.ofInt_natCast]
  rw [register, hones, hmask, getLsbD_mask_shiftLeft r h]

theorem getLsbD_field {v lsb : Nat} (width : Nat) (hv : v < 2 ^ width) (h : lsb + width ≤ 32)
    (p : Nat) :
    (field v lsb).getLsbD p = Piece.bit ⟨lsb, 0, width⟩ v p := by
  have hlt : (BitVec.ofNat 32 v).toNat < 2 ^ width := by
    rw [BitVec.toNat_ofNat]
    exact (Nat.mod_le _ _).trans_lt hv
  refine Word.getLsbD_shiftLeft_eq_bit (s := ⟨lsb, 0, width⟩) h hlt ?_ p
  intro k hk
  have hk' : k < width := hk
  rw [← BitVec.ofInt_natCast, Word.getLsbD_ofInt v (by omega), Nat.zero_add]

variable {funct7 funct3 opcode : Nat} (p : Nat)

theorem getLsbD_r (rs2 rs1 rd : Nat) (h7 : funct7 < 128) (h3 : funct3 < 8) (ho : opcode < 128) :
    (r funct7 rs2 rs1 funct3 rd opcode).getLsbD p =
      (BitField.funct7.bit funct7 p || BitField.rs2.bit rs2 p || BitField.rs1.bit rs1 p ||
        BitField.funct3.bit funct3 p || BitField.rd.bit rd p || BitField.opcode.bit opcode p) := by
  simp only [r, BitVec.getLsbD_or]
  rw [getLsbD_field 7 h7 (by decide), getLsbD_register rs2 (by decide),
    getLsbD_register rs1 (by decide), getLsbD_field 3 h3 (by decide),
    getLsbD_register rd (by decide), getLsbD_field 7 ho (by decide)]
  simp [BitField.bit, BitField.pieces]

theorem getLsbD_i (imm : Int) (rs1 rd : Nat) (h3 : funct3 < 8) (ho : opcode < 128) :
    (i imm rs1 funct3 rd opcode).getLsbD p =
      (BitField.immI.bit imm p || BitField.rs1.bit rs1 p || BitField.funct3.bit funct3 p ||
        BitField.rd.bit rd p || BitField.opcode.bit opcode p) := by
  simp only [i, BitVec.getLsbD_or]
  rw [getLsbD_mask_shiftLeft imm (by decide), getLsbD_register rs1 (by decide),
    getLsbD_field 3 h3 (by decide), getLsbD_register rd (by decide),
    getLsbD_field 7 ho (by decide)]
  simp [BitField.bit, BitField.pieces]

theorem getLsbD_s (imm : Int) (rs2 rs1 : Nat) (h3 : funct3 < 8) (ho : opcode < 128) :
    (s imm rs2 rs1 funct3 opcode).getLsbD p =
      (BitField.immS.bit imm p || BitField.rs2.bit rs2 p || BitField.rs1.bit rs1 p ||
        BitField.funct3.bit funct3 p || BitField.opcode.bit opcode p) := by
  simp only [s, BitVec.getLsbD_or]
  rw [getLsbD_mask_bits imm (by decide) (by decide) (by decide) (by decide),
    getLsbD_mask_bits imm (by decide) (by decide) (by decide) (by decide),
    getLsbD_register rs2 (by decide), getLsbD_register rs1 (by decide),
    getLsbD_field 3 h3 (by decide), getLsbD_field 7 ho (by decide)]
  simp [BitField.bit, BitField.pieces]
  ac_rfl

theorem getLsbD_b (imm : Int) (rs2 rs1 : Nat) (h3 : funct3 < 8) (ho : opcode < 128) :
    (b imm rs2 rs1 funct3 opcode).getLsbD p =
      (BitField.immB.bit imm p || BitField.rs2.bit rs2 p || BitField.rs1.bit rs1 p ||
        BitField.funct3.bit funct3 p || BitField.opcode.bit opcode p) := by
  simp only [b, BitVec.getLsbD_or]
  rw [getLsbD_mask_bits imm (by decide) (by decide) (by decide) (by decide),
    getLsbD_mask_bits imm (by decide) (by decide) (by decide) (by decide),
    getLsbD_mask_bits imm (by decide) (by decide) (by decide) (by decide),
    getLsbD_mask_bits imm (by decide) (by decide) (by decide) (by decide),
    getLsbD_register rs2 (by decide), getLsbD_register rs1 (by decide),
    getLsbD_field 3 h3 (by decide), getLsbD_field 7 ho (by decide)]
  simp [BitField.bit, BitField.pieces]
  ac_rfl

theorem getLsbD_u (imm : Int) (rd : Nat) (ho : opcode < 128) :
    (u imm rd opcode).getLsbD p =
      (BitField.immU.bit imm p || BitField.rd.bit rd p || BitField.opcode.bit opcode p) := by
  simp only [u, BitVec.getLsbD_or]
  rw [getLsbD_mask_shiftLeft imm (by decide), getLsbD_register rd (by decide),
    getLsbD_field 7 ho (by decide)]
  simp [BitField.bit, BitField.pieces]

theorem getLsbD_j (imm : Int) (rd : Nat) (ho : opcode < 128) :
    (j imm rd opcode).getLsbD p =
      (BitField.immJ.bit imm p || BitField.rd.bit rd p || BitField.opcode.bit opcode p) := by
  simp only [j, BitVec.getLsbD_or]
  rw [getLsbD_mask_bits imm (by decide) (by decide) (by decide) (by decide),
    getLsbD_mask_bits imm (by decide) (by decide) (by decide) (by decide),
    getLsbD_mask_bits imm (by decide) (by decide) (by decide) (by decide),
    getLsbD_mask_bits imm (by decide) (by decide) (by decide) (by decide),
    getLsbD_register rd (by decide), getLsbD_field 7 ho (by decide)]
  simp [BitField.bit, BitField.pieces]
  ac_rfl

end Packing

/-! ## The numbers of a word -/

/-- The numbers that the encoding table puts into the word of a mnemonic, with their fields. -/
def Mnemonic.tableFields (m : Mnemonic) : List (BitField × Int) :=
  let row := m.description
  (.opcode, row.opcode.code) ::
    match row.format with
    | .u | .j => []
    | .r | .iShift => [(.funct3, row.funct3), (.funct7, row.funct7)]
    | .system => [(.funct3, row.funct3), (.immI, if m = .ebreak then 1 else 0)]
    | .i | .load | .s | .b | .csr | .csrImm => [(.funct3, row.funct3)]

/-- The numbers that the operands put into the word, with their fields. -/
def OperandValues.fields : OperandValues → List (BitField × Int)
  | registers rd rs1 rs2 => [(.rd, rd), (.rs1, rs1), (.rs2, rs2)]
  | immediate rd rs1 v => [(.rd, rd), (.rs1, rs1), (.immI, v)]
  | shift rd rs1 amount => [(.rd, rd), (.rs1, rs1), (.rs2, amount)]
  | load rd offset base => [(.rd, rd), (.rs1, base), (.immI, offset)]
  | store rs2 offset base => [(.rs2, rs2), (.rs1, base), (.immS, offset)]
  | branch rs1 rs2 offset => [(.rs1, rs1), (.rs2, rs2), (.immB, offset)]
  | upper rd v => [(.rd, rd), (.immU, v)]
  | jump rd offset => [(.rd, rd), (.immJ, offset)]
  | csr rd address rs1 => [(.rd, rd), (.immI, address), (.rs1, rs1)]
  | csrImmediate rd address v => [(.rd, rd), (.immI, address), (.rs1, v)]
  | none => []

/-- The fields of a format, those of the encoding table first. -/
def Format.bitFields : Format → List BitField
  | .r | .iShift => [.opcode, .funct3, .funct7, .rd, .rs1, .rs2]
  | .i | .load => [.opcode, .funct3, .rd, .rs1, .immI]
  | .s => [.opcode, .funct3, .rs2, .rs1, .immS]
  | .b => [.opcode, .funct3, .rs1, .rs2, .immB]
  | .u => [.opcode, .rd, .immU]
  | .j => [.opcode, .rd, .immJ]
  | .csr | .csrImm => [.opcode, .funct3, .rd, .immI, .rs1]
  | .system => [.opcode, .funct3, .immI]

/-- The fields of a format have no bit in common. -/
theorem Format.pairwise_apart (f : Format) :
    (f.bitFields.flatMap BitField.pieces).Pairwise Piece.Apart := by
  cases f <;> decide

namespace OperandValues

variable {m : Mnemonic} {values : OperandValues}

theorem fields_eq_bitFields (h : values.format = m.format) :
    (m.tableFields ++ values.fields).map (·.1) = m.format.bitFields := by
  rw [Mnemonic.format] at h ⊢
  cases values <;> simp [Mnemonic.tableFields, fields, ← h, format, Format.bitFields]

theorem testBit_emod_32 (v : Int) {k : Nat} (h : k < 5) : (v % 32).testBit k = v.testBit k := by
  cases v with
  | ofNat n =>
    have hmod : Int.ofNat n % 32 = ((n % 2 ^ 5 : Nat) : Int) := rfl
    rw [hmod]
    calc (n % 2 ^ 5).testBit k = (decide (k < 5) && n.testBit k) := Nat.testBit_mod_two_pow n 5 k
      _ = n.testBit k := by rw [decide_eq_true h, Bool.true_and]
  | negSucc n =>
    have hmod : Int.negSucc n % 32 = ((2 ^ 5 - (n % 2 ^ 5 + 1) : Nat) : Int) := by omega
    rw [hmod]
    calc (2 ^ 5 - (n % 2 ^ 5 + 1)).testBit k = (decide (k < 5) && !(n % 2 ^ 5).testBit k) :=
          Nat.testBit_two_pow_sub_succ (by omega) k
      _ = !n.testBit k := by
          rw [Nat.testBit_mod_two_pow, decide_eq_true h, Bool.true_and, Bool.true_and]

theorem testBit_shift_immediate (funct7 : Nat) (amount : Int) (k : Nat) :
    Int.testBit (funct7 * 32 + amount % 32) k =
      if k < 5 then amount.testBit k else funct7.testBit (k - 5) := by
  obtain ⟨n, hn⟩ : ∃ n : Nat, amount % 32 = n := Int.eq_ofNat_of_zero_le (by omega)
  have hsum : (funct7 * 32 + amount % 32 : Int) = ((2 ^ 5 * funct7 + n : Nat) : Int) := by
    push_cast
    omega
  have hbit : Int.testBit (funct7 * 32 + amount % 32) k =
      if k < 5 then n.testBit k else funct7.testBit (k - 5) := by
    rw [hsum]
    exact Nat.testBit_two_pow_mul_add funct7 (by omega) k
  rw [hbit]
  split_ifs with hk
  · rw [← testBit_emod_32 amount hk, hn]
    rfl
  · rfl

/-- In an immediate shift the upper part of the immediate is `funct7`. -/
theorem bit_immI_shift (funct7 : Nat) (amount : Int) (p : Nat) :
    BitField.immI.bit (funct7 * 32 + amount % 32) p =
      (BitField.funct7.bit funct7 p || BitField.rs2.bit amount p) := by
  simp only [BitField.bit, BitField.pieces, List.any_cons, List.any_nil, Bool.or_false, Piece.bit,
    Piece.Covers, Nat.zero_add, testBit_shift_immediate]
  have hupper : p - 20 - 5 = p - 25 := by omega
  rw [hupper]
  split_ifs <;> first | omega | simp [Int.testBit]

theorem bit_rs1_emod_32 (v : Int) (p : Nat) :
    BitField.rs1.bit (v % 32).toNat p = BitField.rs1.bit v p := by
  have hnat : (((v % 32).toNat : Nat) : Int) = v % 32 := Int.toNat_of_nonneg (by omega)
  rw [hnat]
  simp only [BitField.bit, BitField.pieces, List.any_cons, List.any_nil, Bool.or_false, Piece.bit]
  split_ifs with hp
  · obtain ⟨hmin, hmax⟩ : 15 ≤ p ∧ p < 15 + 5 := hp
    exact testBit_emod_32 v (k := 0 + (p - 15)) (by omega)
  · rfl

/-- A bit of a packed word is what the numbers in it bring. -/
theorem getLsbD_pack (h : values.format = m.format) (p : Nat) :
    (values.pack m).getLsbD p = (m.tableFields ++ values.fields).any fun x => x.1.bit x.2 p := by
  have h3 := m.funct3_lt
  have h7 := m.funct7_lt
  have ho := m.description.opcode.code_lt
  rw [Mnemonic.format] at h
  cases values with
    simp only [pack, Mnemonic.tableFields, fields, ← h, format]
  | registers rd rs1 rs2 =>
    rw [Packing.getLsbD_r p rs2 rs1 rd h7 h3 ho]
    simp
    ac_rfl
  | immediate rd rs1 v | load rd v rs1 =>
    rw [Packing.getLsbD_i p v rs1 rd h3 ho]
    simp
    ac_rfl
  | shift rd rs1 amount =>
    rw [Packing.getLsbD_i p _ rs1 rd h3 ho, bit_immI_shift]
    simp
    ac_rfl
  | store rs2 offset base =>
    rw [Packing.getLsbD_s p offset rs2 base h3 ho]
    simp
    ac_rfl
  | branch rs1 rs2 offset =>
    rw [Packing.getLsbD_b p offset rs2 rs1 h3 ho]
    simp
    ac_rfl
  | upper rd v =>
    rw [Packing.getLsbD_u p v rd ho]
    simp
    ac_rfl
  | jump rd offset =>
    rw [Packing.getLsbD_j p offset rd ho]
    simp
    ac_rfl
  | csr rd address rs1 =>
    rw [Packing.getLsbD_i p address rs1 rd h3 ho]
    simp
    ac_rfl
  | csrImmediate rd address v =>
    rw [Packing.getLsbD_i p address _ rd h3 ho, bit_rs1_emod_32]
    simp
    ac_rfl
  | none =>
    have hrow : m.description.funct3 = 0 := by
      cases m <;> first | rfl | contradiction
    rw [Packing.getLsbD_i p _ 0 0 (by decide) ho, hrow]
    simp
    ac_rfl

/-- Each number of a packed word stands in its own field, also one that does not fit there. -/
theorem holds_pack (h : values.format = m.format) {field : BitField} {v : Int}
    (hmem : (field, v) ∈ m.tableFields ++ values.fields) : field.Holds (values.pack m) v := by
  refine BitField.holds_of_mem (getLsbD_pack h) ?_ hmem
  rw [fields_eq_bitFields h]
  exact m.format.pairwise_apart

end OperandValues

end RefHart
