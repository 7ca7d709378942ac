import Mathlib
import RefHart.Hart.Execution
import RefHart.Proofs.RoundTrip

/-!
# Instructions as they are written

**Theorem (`effect_decode_encode`).** What a hart does on an encoded instruction is what the mnemonic
says of the operand values in the order in which they are written.

`OperandValues.effect` says this without a word, its fields or the canonical branches: immediates are
integers and the ten branches have a comparison each (`Mnemonic.relation`). A pseudo-branch keeps its
meaning because exchanging the two registers turns its comparison into that of its canonical branch.
-/

namespace RefHart

open Instruction

/-! ## Meaning of source instructions -/

/-- The comparison on which a branch jumps. -/
def Mnemonic.relation (op : Mnemonic) (a b : Word) : Bool :=
  match op with
  | .beq => a = b
  | .bne => a ≠ b
  | .blt => a.toInt < b.toInt
  | .bge => b.toInt ≤ a.toInt
  | .bltu => a.toNat < b.toNat
  | .bgeu => b.toNat ≤ a.toNat
  | .ble => a.toInt ≤ b.toInt
  | .bleu => a.toNat ≤ b.toNat
  | .bgt => b.toInt < a.toInt
  | .bgtu => b.toNat < a.toNat
  | _ => false

/-- The effect of writing a result, if there is one. -/
def Effect.ofResult (rd : Nat) (next : Word) (v? : Option Word) : Effect :=
  v?.elim (.jump next) fun v => .write rd v next

/-- What a hart does on an instruction with the given operand values. -/
def OperandValues.effect (op : Mnemonic) (h : Hart) (values : OperandValues) : Effect :=
  let next := h.pc + 4
  match values with
  | registers rd rs1 rs2 =>
    if op.isMulDiv ∧ h.config.mulDiv = false then .jump next
    else .ofResult rd next (Alu.register? op (h.register rs1) (h.register rs2))
  | immediate rd rs1 v =>
    let imm := BitVec.ofInt 32 (signed12 v)
    if op = .jalr then .write rd next ((h.register rs1 + imm) &&& ~~~1)
    else .ofResult rd next (Alu.immediate? op (h.register rs1) imm)
  | shift rd rs1 amount =>
    .ofResult rd next (Alu.immediate? op (h.register rs1) (BitVec.ofInt 32 amount))
  | load rd offset base =>
    .load rd (loadKind op).1 (loadKind op).2
      (h.register base + BitVec.ofInt 32 (signed12 offset)) next
  | store rs2 offset base =>
    .store (storeWidth op) (h.register base + BitVec.ofInt 32 (signed12 offset)) (h.register rs2) next
  | branch rs1 rs2 offset =>
    .jump (if op.relation (h.register rs1) (h.register rs2) then h.pc + BitVec.ofInt 32 offset
      else next)
  | upper rd v =>
    let upper := BitVec.ofInt 32 (v * 2 ^ 12)
    .write rd (if op = .auipc then h.pc + upper else upper) next
  | jump rd offset => .write rd next (h.pc + BitVec.ofInt 32 offset)
  | csr _ _ _ | csrImmediate _ _ _ | none =>
    .jump (if h.config.haltOn.contains (haltFlag op) then Hart.haltPc else next)

/-! ## Canonical instructions -/

theorem Word.eq_ofInt_of_toInt {w : Word} {v : Int} (h : w.toInt = v) : w = BitVec.ofInt 32 v := by
  rw [← h, BitVec.ofInt_toInt]

theorem Word.eq_ofInt_of_toNat {w : Word} {v : Int} (h : (w.toNat : Int) = v % 2 ^ 32) :
    w = BitVec.ofInt 32 v := by
  apply BitVec.eq_of_toNat_eq
  rw [BitVec.toNat_ofInt]
  omega

theorem Alu.shiftAmount_eq (b : Word) : Alu.shiftAmount b = b.toNat % 32 := Word.toNat_and_31 b

/-- Of a shift amount only the lowest five bits count. -/
theorem Alu.shiftAmount_eq_ofInt {imm : Word} {amount : Int} (h : ((imm &&& 31).toNat : Int) = amount) :
    Alu.shiftAmount imm = Alu.shiftAmount (BitVec.ofInt 32 amount) := by
  rw [Word.toNat_and_31] at h
  rw [shiftAmount_eq, shiftAmount_eq, BitVec.toNat_ofInt]
  omega

theorem Mnemonic.branchTaken_eq_relation {op : Mnemonic} (h : op.isPseudo = false) (a b : Word) :
    Alu.branchTaken op a b = op.relation a b := by
  cases op
  case bne => exact decide_not.symm
  case bge => exact decide_not.symm.trans (decide_eq_decide.2 not_lt)
  case bgeu => exact decide_not.symm.trans (decide_eq_decide.2 not_lt)
  case ble | bleu | bgt | bgtu => contradiction
  all_goals rfl

theorem effect_of_op {d : Instruction} {op : Mnemonic} (hop : d.op = some op) (h : Hart) :
    h.effect d =
      if op.isMulDiv ∧ h.config.mulDiv = false then .jump (h.pc + 4)
      else d.effectOf op h.config h.pc (h.register d.rs1) (h.register d.rs2) := by
  rw [Hart.effect, Instruction.effect, active?, hop, Option.filter_some]
  cases op.isMulDiv <;> cases h.config.mulDiv <;> rfl

/-- The fields of a canonical instruction give the effect that its operands have as written. -/
theorem effect_of_carries {d : Instruction} {op : Mnemonic} {v : OperandValues}
    (hop : d.op = some op) (hpseudo : op.isPseudo = false) (hformat : v.format = op.format)
    (hcarries : d.Carries v) (h : Hart) : h.effect d = v.effect op h := by
  rw [effect_of_op hop]
  cases v with
  | registers rd rs1 rs2 =>
    obtain ⟨rfl, rfl, rfl⟩ := hcarries
    have hcode : op.description.opcode = .op := by cases op <;> first | rfl | cases hformat
    rw [effectOf, hcode, OperandValues.effect]
    cases Alu.register? op (h.register d.rs1) (h.register d.rs2) <;> rfl
  | immediate rd rs1 v =>
    obtain ⟨rfl, rfl, himm⟩ := hcarries
    rw [OperandValues.effect, ← Word.eq_ofInt_of_toInt himm]
    cases op <;> first | rfl | cases hformat
  | shift rd rs1 amount =>
    obtain ⟨rfl, rfl, himm⟩ := hcarries
    have hamount := Alu.shiftAmount_eq_ofInt himm
    have hresult (a : Word) :
        Alu.immediate? op a d.imm = Alu.immediate? op a (BitVec.ofInt 32 amount) := by
      cases op <;> first | rw [Alu.immediate?, Alu.immediate?, hamount] | cases hformat
    rw [OperandValues.effect, ← hresult]
    cases op <;> first | rfl | cases hformat
  | load rd offset base =>
    obtain ⟨rfl, rfl, himm⟩ := hcarries
    rw [OperandValues.effect, ← Word.eq_ofInt_of_toInt himm]
    cases op <;> first | rfl | cases hformat
  | store rs2 offset base =>
    obtain ⟨rfl, rfl, himm⟩ := hcarries
    rw [OperandValues.effect, ← Word.eq_ofInt_of_toInt himm]
    cases op <;> first | rfl | cases hformat
  | branch rs1 rs2 offset =>
    obtain ⟨rfl, rfl, himm⟩ := hcarries
    rw [OperandValues.effect, ← Word.eq_ofInt_of_toInt himm, ← Mnemonic.branchTaken_eq_relation hpseudo]
    cases op <;> first | rfl | cases hformat
  | upper rd v =>
    obtain ⟨rfl, himm⟩ := hcarries
    rw [OperandValues.effect, ← Word.eq_ofInt_of_toNat himm]
    cases op <;> first | rfl | cases hformat
  | jump rd offset =>
    obtain ⟨rfl, himm⟩ := hcarries
    rw [OperandValues.effect, ← Word.eq_ofInt_of_toInt himm]
    cases op <;> first | rfl | cases hformat
  | csr | csrImmediate | none =>
    cases op <;> first | rfl | cases hformat

/-! ## Pseudo-branches -/

/-- The operands of the canonical instruction: those of a pseudo-branch are exchanged. -/
def OperandValues.canonical (op : Mnemonic) (values : OperandValues) : OperandValues :=
  match values with
  | branch rs1 rs2 offset => if op.isPseudo then branch rs2 rs1 offset else values
  | _ => values

theorem Mnemonic.relation_canonical (op : Mnemonic) (a b : Word) (h : op.isPseudo = true) :
    op.canonical.relation b a = op.relation a b := by
  cases op <;> first | rfl | contradiction

theorem Mnemonic.format_of_isPseudo {op : Mnemonic} (h : op.isPseudo = true) :
    op.format = .b ∧ op.canonical.format = .b := by
  cases op <;> first | exact ⟨rfl, rfl⟩ | contradiction

theorem OperandValues.canonical_of_isPseudo_eq_false {op : Mnemonic} (h : op.isPseudo = false)
    (v : OperandValues) : v.canonical op = v := by
  cases v with
  | branch =>
    rw [canonical, h]
    rfl
  | _ => rfl

theorem Mnemonic.format_canonical (op : Mnemonic) : op.canonical.format = op.format := by
  cases op <;> rfl

theorem OperandValues.format_canonical (op : Mnemonic) (v : OperandValues) :
    (v.canonical op).format = v.format := by
  cases v with
  | branch =>
    unfold canonical
    split_ifs <;> rfl
  | _ => rfl

theorem OperandValues.fits_of_canonical {op : Mnemonic} {v : OperandValues}
    (h : (v.canonical op).Fits) : v.Fits := by
  cases v with
  | branch =>
    unfold canonical at h
    split_ifs at h <;> exact h
  | _ => exact h

theorem OperandValues.effect_canonical {op : Mnemonic} {v : OperandValues}
    (hformat : v.format = op.format) (h : Hart) :
    (v.canonical op).effect op.canonical h = v.effect op h := by
  cases hpseudo : op.isPseudo with
  | false =>
    rw [canonical_of_isPseudo_eq_false hpseudo, Mnemonic.canonical_of_isPseudo_eq_false hpseudo]
  | true =>
    rw [(Mnemonic.format_of_isPseudo hpseudo).1] at hformat
    cases v with
    | branch rs1 rs2 offset =>
      rw [canonical, if_pos hpseudo, effect, effect, Mnemonic.relation_canonical op _ _ hpseudo]
    | _ => contradiction

/-- The operands as written denote values, and exchanging them gives those of the canonical
instruction. -/
theorem Operands.exists_values?_of_canonical {op : Mnemonic} {tokens : List Text}
    {labels : LabelTable} {address : Word} {v : OperandValues}
    (h : Operands.values? ⟨op.canonical, canonicalOperands op tokens, labels, address⟩ = some v) :
    ∃ v', Operands.values? ⟨op, tokens, labels, address⟩ = some v' ∧ v'.canonical op = v := by
  cases hpseudo : op.isPseudo with
  | false =>
    rw [Mnemonic.canonical_of_isPseudo_eq_false hpseudo, canonicalOperands, hpseudo] at h
    exact ⟨v, h, OperandValues.canonical_of_isPseudo_eq_false hpseudo v⟩
  | true =>
    obtain ⟨hformat, hcanonical⟩ := Mnemonic.format_of_isPseudo hpseudo
    rw [canonicalOperands, if_pos hpseudo] at h
    unfold values? at h ⊢
    rw [hcanonical] at h
    rw [hformat]
    match tokens with
    | [a, b, t] =>
      simp only [exchangeFirstTwo, Option.bind_eq_bind, Option.bind_eq_some_iff, Option.pure_def,
        Option.some.injEq] at h
      obtain ⟨rs2, h2, rs1, h1, offset, ht, rfl⟩ := h
      refine ⟨.branch rs1 rs2 offset, ?_, if_pos hpseudo⟩
      have ht' : immediate? ⟨op, [a, b, t], labels, address⟩ t = some offset := ht
      simp [h1, h2, ht']
    | [] | [_] | [_, _] | _ :: _ :: _ :: _ :: _ => contradiction

/-! ## Encoded instructions -/

/-- An encoded instruction carries the values that its operands denote, exchanged if it is a
pseudo-branch. -/
theorem carries_decode_encode {op : Mnemonic} {tokens : List Text} {labels : LabelTable}
    {address : Word} (herrors : (encode op tokens labels address).errors = []) :
    ∃ v, Operands.values? ⟨op, tokens, labels, address⟩ = some v ∧ v.format = op.format ∧ v.Fits ∧
      (decode (encode op tokens labels address).value).op = some op.canonical ∧
      (decode (encode op tokens labels address).value).Carries (v.canonical op) := by
  let o : Operands := ⟨op.canonical, canonicalOperands op tokens, labels, address⟩
  have hformat : o.readValues.format = op.canonical.format := o.format_readValues
  have hword : (encode op tokens labels address).value = o.readValues.pack op.canonical :=
    o.value_encode
  obtain ⟨hv, hfits⟩ := Operands.values?_of_errors_encode herrors
  have hvalid := Operands.valid_of_values? hv
  obtain ⟨v, hv', hcanonical⟩ := Operands.exists_values?_of_canonical hv
  rw [← hcanonical] at hformat hword hfits hvalid
  refine ⟨v, hv', ?_, OperandValues.fits_of_canonical hfits, ?_, ?_⟩
  · rw [← v.format_canonical op, hformat, op.format_canonical]
  · rw [hword, op_decode_pack op.isPseudo_canonical hformat]
  · rw [hword]
    exact carries_decode_pack hformat hfits hvalid

theorem effect_decode_encode {op : Mnemonic} {tokens : List Text} {labels : LabelTable}
    {address : Word} (herrors : (encode op tokens labels address).errors = []) :
    ∃ v, Operands.values? ⟨op, tokens, labels, address⟩ = some v ∧ v.Fits ∧
      ∀ h : Hart, h.effect (decode (encode op tokens labels address).value) = v.effect op h := by
  obtain ⟨v, hv, hformat, hfits, hop, hcarries⟩ := carries_decode_encode herrors
  have hformat' : (v.canonical op).format = op.canonical.format := by
    rw [v.format_canonical op, hformat, op.format_canonical]
  refine ⟨v, hv, hfits, ?_⟩
  intro h
  calc h.effect (decode (encode op tokens labels address).value)
      = (v.canonical op).effect op.canonical h :=
        effect_of_carries hop op.isPseudo_canonical hformat' hcarries h
    _ = v.effect op h := OperandValues.effect_canonical hformat h

/-- No encoded word is the word 0. -/
theorem encode_ne_zero (op : Mnemonic) (tokens : List Text) (labels : LabelTable) (address : Word) :
    (encode op tokens labels address).value ≠ 0 := by
  have hop := op_decode_encode op tokens labels address
  intro hzero
  rw [hzero] at hop
  contradiction

end RefHart
