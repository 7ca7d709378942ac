import Mathlib
import RefHart.Proofs.BitFields
import RefHart.Proofs.Repacking

/-!
# The decoder and the encoding table

The decoder finds mnemonics by itself, opcode by opcode, and never looks at the encoding table.

**Theorem (`op_decode_agrees`).** A word is claimed exactly if the table has a row for it: one of a
canonical mnemonic, with the opcode of the word and with its `funct3` as well, unless the mnemonic is
found without a look at that. And the mnemonic that claims a word is the one that stands for the word.

Rows with the same opcode and `funct3` are told apart by other bits, in which decoding is lenient.
`StandsFor` says by which, and at most one mnemonic stands for a word.
-/

namespace RefHart

namespace Instruction

variable {w : Word} {m : Mnemonic} {funct3 : Nat}

/-- The row of a mnemonic has the opcode of a word, and its `funct3` where decoding looks at it. -/
def HasRow (w : Word) (m : Mnemonic) : Prop :=
  m.isPseudo = false ∧ m.description.opcode.code = field w 6 0 ∧
    (ignoresFunct3 m ∨ m.description.funct3 = field w 14 12)

/-- What a word has to show for a mnemonic. Three opcodes have rows that share their `funct3`. Of the
other bits, a register operation looks at `funct7`, a right shift by a constant at bit 30 and a system
instruction at its immediate. -/
structure StandsFor (w : Word) (m : Mnemonic) : Prop where
  canonical : m.isPseudo = false
  opcode : m.description.opcode.code = field w 6 0
  funct3 : m ∉ [.lui, .auipc, .jal, .jalr] → m.description.funct3 = field w 14 12
  mulDiv : m.isMulDiv = true ↔ field w 6 0 = Opcode.op.code ∧ field w 31 25 = 0x01
  alternate : m = .sub ∨ m = .sra ↔
    field w 6 0 = Opcode.op.code ∧ field w 31 25 = 0x20 ∧ (field w 14 12 = 0 ∨ field w 14 12 = 5)
  arithmeticShift : m = .srai ↔
    field w 6 0 = Opcode.opImm.code ∧ field w 14 12 = 5 ∧ w.getLsbD 30 = true
  breakpoint : m = .ebreak ↔
    field w 6 0 = Opcode.system.code ∧ field w 14 12 = 0 ∧ field w 31 20 = 1

theorem ignoresFunct3_iff (m : Mnemonic) :
    ignoresFunct3 m ↔ m ∈ [Mnemonic.lui, .auipc, .jal, .jalr] := by
  cases m <;> simp [ignoresFunct3, Mnemonic.format, Mnemonic.description]

theorem opcode_mem_of_mem (h : m ∈ [Mnemonic.lui, .auipc, .jal, .jalr]) :
    m.description.opcode ∈ [Opcode.lui, .auipc, .jal, .jalr] := by
  revert m
  decide

/-! ## Claimed words -/

theorem isSome_op_decode_iff (w : Word) : (decode w).op.isSome ↔ ∃ m, HasRow w m := by
  constructor
  · intro h
    obtain ⟨m, hm⟩ := Option.isSome_iff_exists.1 h
    refine ⟨m, isPseudo_of_op_decode hm, (opcode_of_op_decode hm).symm, ?_⟩
    by_cases hignores : ignoresFunct3 m
    · exact .inl hignores
    · exact .inr (funct3_of_op_decode hm hignores).symm
  · rintro ⟨m, hpseudo, hopcode, hrow⟩
    rw [decode, mnemonic?, ← hopcode, Opcode.ofCode?_code]
    rw [ignoresFunct3_iff] at hrow
    -- Under the opcodes of the first group, not every `funct3` is in use.
    cases m
    case lb | lh | lw | lbu | lhu | sb | sh | sw | beq | bne | blt | bge | bltu | bgeu | ecall
      | ebreak | csrrw | csrrs | csrrc | csrrwi | csrrsi | csrrci =>
      rw [← hrow.resolve_left (by decide)]
      rfl
    case ble | bleu | bgt | bgtu => contradiction
    all_goals rfl

/-! ## Rows that share their `funct3` -/

theorem isMulDiv_registerOp (h : funct3 < 8) (funct7 : Nat) :
    (registerOp funct3 funct7).isMulDiv = true ↔ funct7 = 0x01 := by
  interval_cases funct3 <;> unfold registerOp <;> split <;>
    simp_all [Mnemonic.isMulDiv, Mnemonic.description]

theorem registerOp_eq_sub_or_sra_iff (h : funct3 < 8) (funct7 : Nat) :
    registerOp funct3 funct7 = .sub ∨ registerOp funct3 funct7 = .sra ↔
      funct7 = 0x20 ∧ (funct3 = 0 ∨ funct3 = 5) := by
  interval_cases funct3 <;> unfold registerOp <;> split <;> simp_all

theorem immediateOp_eq_srai_iff (h : funct3 < 8) (imm : Word) :
    immediateOp funct3 imm = .srai ↔ funct3 = 5 ∧ imm.getLsbD 10 = true := by
  interval_cases funct3 <;> unfold immediateOp <;> split_ifs <;> simp_all

theorem systemOp?_eq_ebreak_iff (funct3 : Nat) (imm : Word) :
    systemOp? funct3 imm = some .ebreak ↔ funct3 = 0 ∧ imm = 1 := by
  unfold systemOp?
  split
  · split_ifs <;> simp_all
  all_goals simp_all

/-- Two questions about `funct7` are enough to tell the register operations apart. -/
theorem registerOp_funct3 (hcode : m.description.opcode = .op) {funct7 : Nat}
    (hmulDiv : m.isMulDiv = true ↔ funct7 = 0x01)
    (halternate : m = .sub ∨ m = .sra ↔
      funct7 = 0x20 ∧ (m.description.funct3 = 0 ∨ m.description.funct3 = 5)) :
    registerOp m.description.funct3 funct7 = m := by
  cases m <;> first | contradiction | skip
  all_goals
    simp only [Mnemonic.isMulDiv, Mnemonic.description] at hmulDiv halternate ⊢
    unfold registerOp
    split <;> simp_all

theorem immediateOp_funct3 (hcode : m.description.opcode = .opImm) {imm : Word}
    (hshift : m = .srai ↔ m.description.funct3 = 5 ∧ imm.getLsbD 10 = true) :
    immediateOp m.description.funct3 imm = m := by
  cases m <;> first | contradiction | simp_all [Mnemonic.description, immediateOp]

theorem systemOp?_funct3 (hcode : m.description.opcode = .system) {imm : Word}
    (hbreakpoint : m = .ebreak ↔ m.description.funct3 = 0 ∧ imm = 1) :
    systemOp? m.description.funct3 imm = some m := by
  cases m <;> first | contradiction | simp_all [Mnemonic.description, systemOp?]

theorem getLsbD_ten_immI (w : Word) : (immI w).getLsbD 10 = w.getLsbD 30 := by
  rw [immI, Word.getLsbD_extendSign _ (by decide) (by decide),
    Word.getLsbD_bits w (by decide) (by decide)]

theorem immI_eq_one_iff (w : Word) : immI w = 1 ↔ field w 31 20 = 1 := by
  obtain ⟨h7, h2, -⟩ := fields_lt w
  have hfield : field w 31 20 = field w 31 25 * 2 ^ 5 + field w 24 20 := by
    rw [field_eq w (by decide), field_eq w (by decide), field_eq w (by decide)]
    omega
  have himm := toInt_immI w
  have hone : (1 : Word).toInt = 1 := by decide
  rw [← BitVec.toInt_inj, hone, himm, hfield, Int.bmod_def]
  split_ifs <;> omega

/-! ## What is found under an opcode -/

theorem op_decode_of_op (h : field w 6 0 = Opcode.op.code) :
    (decode w).op = some (registerOp (field w 14 12) (field w 31 25)) := by
  rw [decode, mnemonic?, h, Opcode.ofCode?_code]

theorem op_decode_of_opImm (h : field w 6 0 = Opcode.opImm.code) :
    (decode w).op = some (immediateOp (field w 14 12) (immI w)) := by
  rw [decode, mnemonic?, immediate, h, Opcode.ofCode?_code]

theorem op_decode_of_system (h : field w 6 0 = Opcode.system.code) :
    (decode w).op = systemOp? (field w 14 12) (immI w) := by
  rw [decode, mnemonic?, immediate, h, Opcode.ofCode?_code]

/-- What is true of a mnemonic under one opcode only has to be settled there. -/
theorem iff_opcode_and {o : Opcode} {p q : Prop} (h : (decode w).op = some m)
    (hp : p → m.description.opcode = o) (hiff : field w 6 0 = o.code → (p ↔ q)) :
    p ↔ field w 6 0 = o.code ∧ q := by
  constructor
  · intro hp'
    have ho : field w 6 0 = o.code := by rw [opcode_of_op_decode h, hp hp']
    exact ⟨ho, (hiff ho).1 hp'⟩
  · rintro ⟨ho, hq⟩
    exact (hiff ho).2 hq

theorem standsFor_of_op_decode (h : (decode w).op = some m) : StandsFor w m := by
  have hlt : field w 14 12 < 8 := (fields_lt w).2.2.2.1
  refine ⟨isPseudo_of_op_decode h, (opcode_of_op_decode h).symm, ?funct3, ?mulDiv, ?alternate,
    ?arithmeticShift, ?breakpoint⟩
  case funct3 =>
    intro hm
    exact (funct3_of_op_decode h ((ignoresFunct3_iff m).not.2 hm)).symm
  case mulDiv =>
    refine iff_opcode_and h (fun hm => ?_) fun hop => ?_
    · rw [Mnemonic.isMulDiv, Bool.and_eq_true, beq_iff_eq] at hm
      exact hm.1
    · obtain rfl := Option.some.inj ((op_decode_of_op hop).symm.trans h)
      exact isMulDiv_registerOp hlt _
  case alternate =>
    refine iff_opcode_and h (fun hm => ?_) fun hop => ?_
    · rcases hm with rfl | rfl <;> rfl
    · obtain rfl := Option.some.inj ((op_decode_of_op hop).symm.trans h)
      exact registerOp_eq_sub_or_sra_iff hlt _
  case arithmeticShift =>
    refine iff_opcode_and h (fun hm => hm ▸ rfl) fun hop => ?_
    obtain rfl := Option.some.inj ((op_decode_of_opImm hop).symm.trans h)
    rw [immediateOp_eq_srai_iff hlt, getLsbD_ten_immI]
  case breakpoint =>
    refine iff_opcode_and h (fun hm => hm ▸ rfl) fun hop => ?_
    rw [← immI_eq_one_iff, ← systemOp?_eq_ebreak_iff, ← op_decode_of_system hop, h,
      Option.some.injEq]

theorem op_decode_of_standsFor (h : StandsFor w m) : (decode w).op = some m := by
  have hopcode := h.opcode
  have hfunct3 (hcode : m.description.opcode ∉ [Opcode.lui, .auipc, .jal, .jalr]) :
      m.description.funct3 = field w 14 12 :=
    h.funct3 fun hm => hcode (opcode_mem_of_mem hm)
  cases hcode : m.description.opcode with rw [hcode] at hopcode hfunct3
  | op =>
    have hrow := hfunct3 (by decide)
    have hmulDiv := h.mulDiv
    have halternate := h.alternate
    rw [and_iff_right hopcode.symm] at hmulDiv halternate
    rw [op_decode_of_op hopcode.symm, ← hrow]
    exact congrArg some (registerOp_funct3 hcode hmulDiv (hrow ▸ halternate))
  | opImm =>
    have hrow := hfunct3 (by decide)
    have hshift := h.arithmeticShift
    rw [and_iff_right hopcode.symm, ← getLsbD_ten_immI, ← hrow] at hshift
    rw [op_decode_of_opImm hopcode.symm, ← hrow, immediateOp_funct3 hcode hshift]
  | system =>
    have hrow := hfunct3 (by decide)
    have hbreakpoint := h.breakpoint
    rw [and_iff_right hopcode.symm, ← immI_eq_one_iff, ← hrow] at hbreakpoint
    rw [op_decode_of_system hopcode.symm, ← hrow, systemOp?_funct3 hcode hbreakpoint]
  | load | store | branch =>
    refine op_decode_of_format h.canonical (by rw [← hopcode, hcode]) (hfunct3 (by decide)).symm ?_
    cases m <;> first | contradiction | decide
  | lui | auipc | jal | jalr =>
    rw [decode, mnemonic?, ← hopcode, Opcode.ofCode?_code]
    cases m <;> first | contradiction | rfl

/-- A word has no mnemonic exactly if no row of the table has its bits, and else the one that its
bits stand for. -/
theorem op_decode_agrees (w : Word) :
    ((decode w).op = none ↔ ¬ ∃ m, HasRow w m) ∧
      ∀ m, (decode w).op = some m ↔ StandsFor w m := by
  refine ⟨?_, fun m => ⟨standsFor_of_op_decode, op_decode_of_standsFor⟩⟩
  rw [← isSome_op_decode_iff, Option.not_isSome_iff_eq_none]

end Instruction

end RefHart
