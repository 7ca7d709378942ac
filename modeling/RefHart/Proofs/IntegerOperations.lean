import Mathlib
import RefHart.Proofs.Effects
import RefHart.Proofs.Operations

/-!
# Integer operations

**Theorem (`operations_yield`).** The ten base operations on two registers give what they say in
numbers. Each of the nine operations with an immediate is one of them, its second operand replaced
by the immediate: the two tables of results agree on all words, and the two instructions have the same
outcome on every hart that holds the immediate in the second source register.

What an operation says in numbers is `Alu.Yields`. Sums, differences and left shifts are taken modulo
`2 ^ 32`, the arithmetic right shift is a division of the signed value that rounds down, and the shift
amount is the second operand modulo 32.
-/

namespace RefHart

namespace Mnemonic

/-- The operations on two registers, those of the multiply/divide extension apart. -/
def baseOperations : List Mnemonic := [add, sub, sll, slt, sltu, xor, srl, sra, or, and]

/-- The register operation that does what an operation with an immediate does. -/
def registerForm? : Mnemonic → Option Mnemonic
  | addi => some add
  | slti => some slt
  | sltiu => some sltu
  | xori => some xor
  | ori => some or
  | andi => some and
  | slli => some sll
  | srli => some srl
  | srai => some sra
  | _ => none

theorem mem_baseOperations_of_registerForm? {op op' : Mnemonic} (h : op.registerForm? = some op') :
    op' ∈ baseOperations := by
  cases op <;> first | contradiction | (obtain rfl := Option.some.inj h; decide)

theorem isMulDiv_of_mem_baseOperations {op : Mnemonic} (h : op ∈ baseOperations) :
    op.isMulDiv = false := by
  revert op
  decide

theorem accessWidth?_of_mem_baseOperations {op : Mnemonic} (h : op ∈ baseOperations) :
    op.accessWidth? = none := by
  revert op
  decide

end Mnemonic

namespace Alu

/-! ## Results in numbers -/

/-- What a base operation says of its result `v`. -/
def Yields (op : Mnemonic) (a b v : Word) : Prop :=
  let amount := b.toNat % 32
  match op with
  | .add => v.toNat = (a.toNat + b.toNat) % 2 ^ 32
  | .sub => (v.toNat : Int) = ((a.toNat : Int) - b.toNat) % 2 ^ 32
  | .sll => v.toNat = a.toNat * 2 ^ amount % 2 ^ 32
  | .slt => v.toNat = if a.toInt < b.toInt then 1 else 0
  | .sltu => v.toNat = if a.toNat < b.toNat then 1 else 0
  | .xor => ∀ i, v.getLsbD i = (a.getLsbD i != b.getLsbD i)
  | .srl => v.toNat = a.toNat / 2 ^ amount
  | .sra => v.toInt = ⌊(a.toInt : ℚ) / 2 ^ amount⌋
  | .or => ∀ i, v.getLsbD i = (a.getLsbD i || b.getLsbD i)
  | .and => ∀ i, v.getLsbD i = (a.getLsbD i && b.getLsbD i)
  | _ => False

variable (a b : Word)

theorem toNat_ofBool_decide (p : Prop) [Decidable p] :
    (ofBool (decide p)).toNat = if p then 1 else 0 := by
  by_cases h : p <;> simp [ofBool, h]

theorem toNat_sub_eq_emod : ((a - b).toNat : Int) = ((a.toNat : Int) - b.toNat) % 2 ^ 32 := by
  rw [BitVec.toNat_sub]
  have hb := b.isLt
  omega

/-- An arithmetic right shift rounds down. -/
theorem toInt_sshiftRight_eq_floor (k : Nat) :
    (a.sshiftRight k).toInt = ⌊(a.toInt : ℚ) / 2 ^ k⌋ := by
  have hfloor := Rat.floor_intCast_div_natCast a.toInt (2 ^ k)
  rw [BitVec.toInt_sshiftRight, Int.shiftRight_eq_div_pow, ← hfloor]
  push_cast
  rfl

theorem exists_yields {op : Mnemonic} (h : op ∈ Mnemonic.baseOperations) :
    ∃ v, register? op a b = some v ∧ Yields op a b v := by
  have hamount := shiftAmount_eq b
  cases op
  case add => exact ⟨_, rfl, BitVec.toNat_add ..⟩
  case sub => exact ⟨_, rfl, toNat_sub_eq_emod a b⟩
  case sll =>
    refine ⟨_, rfl, ?_⟩
    rw [hamount, Yields, BitVec.toNat_shiftLeft, Nat.shiftLeft_eq]
  case srl =>
    refine ⟨_, rfl, ?_⟩
    rw [hamount, Yields, BitVec.toNat_ushiftRight, Nat.shiftRight_eq_div_pow]
  case sra =>
    refine ⟨_, rfl, ?_⟩
    rw [hamount]
    exact toInt_sshiftRight_eq_floor a _
  case slt => exact ⟨_, rfl, toNat_ofBool_decide _⟩
  case sltu => exact ⟨_, rfl, toNat_ofBool_decide _⟩
  case xor => exact ⟨_, rfl, fun i => BitVec.getLsbD_xor⟩
  case or => exact ⟨_, rfl, fun i => BitVec.getLsbD_or⟩
  case and => exact ⟨_, rfl, fun i => BitVec.getLsbD_and⟩
  all_goals exact absurd h (by decide)

/-! ## Operations with an immediate -/

theorem immediate?_eq_bind (op : Mnemonic) (a imm : Word) :
    immediate? op a imm = op.registerForm?.bind fun op' => register? op' a imm := by
  cases op <;> rfl

variable {op op' : Mnemonic} {d : Instruction} {h : Hart}

theorem effect_of_baseOperation (hbase : op ∈ Mnemonic.baseOperations) (hop : d.op = some op) :
    h.effect d =
      .ofResult d.rd (h.pc + 4) (register? op (h.register d.rs1) (h.register d.rs2)) := by
  rw [effect_of_op hop, Mnemonic.isMulDiv_of_mem_baseOperations hbase]
  cases op <;> first | rfl | exact absurd hbase (by decide)

theorem effect_of_registerForm? (hform : op.registerForm? = some op') (hop : d.op = some op) :
    h.effect d = .ofResult d.rd (h.pc + 4) (register? op' (h.register d.rs1) d.imm) := by
  rw [effect_of_op hop]
  cases op <;> first | contradiction | (obtain rfl := Option.some.inj hform; rfl)

/-- Each operation yields what arithmetic on integers says, and its immediate form does the same
with the immediate. -/
theorem operations_yield :
    (∀ op ∈ Mnemonic.baseOperations, ∀ a b, ∃ v, register? op a b = some v ∧ Yields op a b v) ∧
    ∀ op op', op.registerForm? = some op' →
      op' ∈ Mnemonic.baseOperations ∧ (∀ a imm, immediate? op a imm = register? op' a imm) ∧
      ∀ (h : Hart) (memory : Memory) (d e : Instruction), d.op = some op → e.op = some op' →
        e.rd = d.rd → e.rs1 = d.rs1 → h.register e.rs2 = d.imm →
        ∃ h', h.execute memory d = .ok (h', memory) ∧ h.execute memory e = .ok (h', memory) ∧
          h'.pc = h.pc + 4 ∧
          (d.rd % 32 ≠ 0 → Yields op' (h.register d.rs1) d.imm (h'.register d.rd)) := by
  refine ⟨fun op hbase a b => exists_yields a b hbase, ?_⟩
  intro op op' hform
  have hbase := Mnemonic.mem_baseOperations_of_registerForm? hform
  refine ⟨hbase, ?_, ?_⟩
  · intro a imm
    rw [immediate?_eq_bind, hform, Option.bind_some]
  · intro h memory d e hd he hrd hrs1 hrs2
    obtain ⟨v, hv, hyields⟩ := exists_yields (h.register d.rs1) d.imm hbase
    have hwidth : op.accessWidth? = none := by
      cases op <;> first | rfl | contradiction
    have hwidth' := Mnemonic.accessWidth?_of_mem_baseOperations hbase
    refine ⟨{ h.setRegister d.rd v with pc := h.pc + 4 }, ?_, ?_, rfl, ?_⟩
    · rw [Hart.execute_of_accessWidth? hd hwidth, effect_of_registerForm? hform hd, hv]
      rfl
    · rw [Hart.execute_of_accessWidth? he hwidth', effect_of_baseOperation hbase he, hrd, hrs1, hrs2,
        hv]
      rfl
    · intro hne
      show Yields op' _ _ ((h.setRegister d.rd v).register d.rd)
      rwa [h.register_setRegister_self hne]

/-- `srai x1, x2, 3` and `sra x1, x2, x3`, where `x3` holds the immediate with bit 10 set: -20 is
divided by 8 and rounded down. -/
theorem operations_yield_srai :
    let h := ((Hart.reset {}).setRegister 2 (-20)).setRegister 3 0x403
    let memory := Memory.zeros 32 .little
    let d := Instruction.decode 0x40315093
    let e := Instruction.decode 0x403150B3
    d.op = some .srai ∧ e.op = some .sra ∧ h.register e.rs2 = d.imm ∧
      ∃ h', h.execute memory d = .ok (h', memory) ∧ h.execute memory e = .ok (h', memory) ∧
        (h'.register 1).toInt = ⌊(-20 : ℚ) / 2 ^ 3⌋ := by
  intro h memory d e
  have hd : d.op = some .srai := by decide
  have he : e.op = some .sra := by decide
  have hrs2 : h.register e.rs2 = d.imm := by decide
  obtain ⟨h', hexecute, hexecute', -, hyields⟩ := (operations_yield.2 .srai .sra rfl).2.2 h memory d e
    hd he (by decide) (by decide) hrs2
  refine ⟨hd, he, hrs2, h', hexecute, hexecute', ?_⟩
  have hrd : d.rd = 1 := by decide
  have hvalue : (h.register d.rs1).toInt = -20 := by decide
  have hamount : d.imm.toNat % 32 = 3 := by decide
  have hfloor := hyields (by decide)
  rw [Yields, hvalue, hamount, hrd] at hfloor
  exact_mod_cast hfloor

end Alu

end RefHart
