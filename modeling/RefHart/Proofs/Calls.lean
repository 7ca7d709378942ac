import Mathlib
import RefHart.Proofs.Footprint
import RefHart.Proofs.Halting

/-!
# Calls and returns

A call is a `jal` or a `jalr` with a destination register. The register receives the address of the
next instruction, and a `jalr` to that register goes back there.

**Theorem (`return_to_link`).** On every run from reset, a call leads to its target, worked out from
the old value of the base register, and a later return through the same register leads to the
instruction after the call, whatever has retired in between, as long as none of it has put a value
into that register.

The register keeps the address because an effect that does not write a register leaves it alone
(`Hart.register_apply_of_not_writes`), which carries over to rows of steps (`Reaches.register_eq`). A
`jalr` clears the lowest bit of its target. The address survives this because program counters are
even as long as instructions retire (`Reaches.even_pc`).
-/

namespace RefHart

/-! ## Addresses in numbers -/

/-- The sum of an address and a signed offset wraps around. -/
theorem Word.toNat_add_eq_emod (v offset : Word) :
    ((v + offset).toNat : Int) = (v.toNat + offset.toInt) % 2 ^ 32 := by
  have hv := v.isLt
  have hoffset := offset.isLt
  rw [BitVec.toNat_add, BitVec.toInt_eq_toNat_cond]
  split_ifs <;> omega

theorem Word.and_not_one_of_even {w : Word} (h : w.toNat % 2 = 0) : w &&& ~~~1 = w := by
  apply BitVec.eq_of_toNat_eq
  rw [toNat_and_not_one]
  omega

/-! ## Registers that keep their values -/

/-- Whether an effect puts a value into register `r`. A load from outside the memory does not. -/
def Effect.Writes (memory : Memory) (r : Nat) : Effect → Prop
  | jump _ | store _ _ _ _ => False
  | write rd _ _ => rd % 32 = r % 32
  | load rd width _ address _ => rd % 32 = r % 32 ∧ memory.Holds address width

instance (memory : Memory) (r : Nat) (e : Effect) : Decidable (e.Writes memory r) :=
  match e with
  | .jump _ | .store _ _ _ _ => inferInstanceAs (Decidable False)
  | .write rd _ _ => inferInstanceAs (Decidable (rd % 32 = r % 32))
  | .load rd width _ address _ =>
    inferInstanceAs (Decidable (rd % 32 = r % 32 ∧ memory.Holds address width))

theorem Hart.register_apply_of_not_writes {h : Hart} {memory : Memory} {e : Effect} {r : Nat}
    (hzero : h.register 0 = 0) (hkeeps : ¬ e.Writes memory r) :
    (h.apply memory e).1.register r = h.register r := by
  cases e with
  | jump => rfl
  | write rd v target => exact register_setRegister_of_ne hzero (Ne.symm hkeeps) v
  | load rd width signed address target =>
    rw [apply]
    split_ifs with hholds
    · exact register_setRegister_of_ne hzero (fun hrd => hkeeps ⟨hrd.symm, hholds⟩) _
    · rfl
  | store => rw [apply]; split_ifs <;> rfl

namespace Machine

variable {m m' call callee : Machine} {k r : Nat}

/-- The instruction at the program counter puts a value into register `r`. -/
def Writes (m : Machine) (r : Nat) : Prop := (m.hart.effect m.instruction).Writes m.dmem r

instance (m : Machine) (r : Nat) : Decidable (m.Writes r) :=
  inferInstanceAs (Decidable (Effect.Writes _ _ _))

theorem Reaches.register_zero (h : Reaches m k m') (hzero : m.hart.register 0 = 0) :
    m'.hart.register 0 = 0 := by
  refine h.invariant (p := fun m => m.hart.register 0 = 0) ?_ hzero
  intro m hm _
  exact m.hart.register_zero_apply m.dmem hm _

/-- A register into which none of the retired instructions has put a value holds what it held. -/
theorem Reaches.register_eq (h : Reaches m k m') (hzero : m.hart.register 0 = 0)
    (hkeeps : ∀ j < k, ∀ mid, Reaches m j mid → ¬ mid.Writes r) :
    m'.hart.register r = m.hart.register r := by
  induction h with
  | refl => rfl
  | @step k m₁ m₂ hreaches hlast ih =>
    obtain ⟨-, rfl⟩ := (step_eq_ok_iff m₁ m₂).1 hlast
    have hlast : m₁.retire.hart.register r = m₁.hart.register r :=
      Hart.register_apply_of_not_writes (hreaches.register_zero hzero)
        (hkeeps k k.lt_succ_self m₁ hreaches)
    rw [hlast, ih fun j hj => hkeeps j (hj.trans k.lt_succ_self)]

/-! ## Calls -/

/-- The instruction at the program counter is a `jal` or a `jalr` with destination `r`. -/
def Links (m : Machine) (r : Nat) : Prop :=
  (m.instruction.op = some .jal ∨ m.instruction.op = some .jalr) ∧ m.instruction.rd = r

/-- The instruction at the program counter is a `jalr` to the address in register `r`. -/
def Returns (m : Machine) (r : Nat) : Prop :=
  m.instruction.op = some .jalr ∧ m.instruction.rs1 = r ∧ m.instruction.imm = 0

theorem effect_of_jal (hop : m.instruction.op = some .jal) :
    m.hart.effect m.instruction =
      .write m.instruction.rd (m.hart.pc + 4) (m.hart.pc + m.instruction.imm) := by
  rw [effect_of_op hop]
  rfl

theorem effect_of_jalr (hop : m.instruction.op = some .jalr) :
    m.hart.effect m.instruction =
      .write m.instruction.rd (m.hart.pc + 4)
        ((m.hart.register m.instruction.rs1 + m.instruction.imm) &&& ~~~1) := by
  rw [effect_of_op hop]
  rfl

/-- A call leaves the address of the next instruction in its destination. -/
theorem register_retire_of_links (h : m.Links r) (hr : r ≠ 0) :
    m.retire.hart.register r = m.hart.pc + 4 := by
  obtain ⟨hop, rfl⟩ := h
  have hrd : m.instruction.rd < 32 := Instruction.field_lt m.word 11 7 (by decide)
  have heffect : ∃ target,
      m.hart.effect m.instruction = .write m.instruction.rd (m.hart.pc + 4) target := by
    rcases hop with hop | hop
    · exact ⟨_, effect_of_jal hop⟩
    · exact ⟨_, effect_of_jalr hop⟩
  obtain ⟨target, heffect⟩ := heffect
  show (m.hart.apply m.dmem (m.hart.effect m.instruction)).1.register m.instruction.rd = _
  rw [heffect]
  exact m.hart.register_setRegister_self (by omega) _

/-- A return leads to the address in the register, if that is even. -/
theorem pc_retire_of_returns (h : m.Returns r) (heven : (m.hart.register r).toNat % 2 = 0) :
    m.retire.hart.pc = m.hart.register r := by
  obtain ⟨hop, rfl, himm⟩ := h
  rw [pc_retire, effect_of_jalr hop, himm]
  show (m.hart.register m.instruction.rs1 + 0#32) &&& ~~~1 = _
  rw [BitVec.add_zero, Word.and_not_one_of_even heven]

/-- As long as no instruction in between writes the link register, a return through it leads behind
the call. -/
theorem return_to_link (config : MachineConfig) (code data : List Byte)
    (hreaches : Reaches ((reset config).load code data) k call) (hcall : call.step = .ok callee)
    (hlinks : call.Links r) (hr : r ≠ 0) :
    let pc := call.hart.pc
    let base := call.hart.register call.instruction.rs1
    let offset := call.instruction.imm
    (call.instruction.op = some .jal →
      (callee.hart.pc.toNat : Int) = (pc.toNat + offset.toInt) % 2 ^ 32) ∧
    (call.instruction.op = some .jalr →
      (callee.hart.pc.toNat : Int) = (base.toNat + offset.toInt) % 2 ^ 32 / 2 * 2) ∧
    callee.hart.register r = pc + 4 ∧
    ∀ j ret after, Reaches callee j ret → (∀ i < j, ∀ mid, Reaches callee i mid → ¬ mid.Writes r) →
      ret.Returns r → ret.step = .ok after → after.hart.pc.toNat = (pc.toNat + 4) % 2 ^ 32 := by
  intro pc base offset
  obtain ⟨hnone, rfl⟩ := (step_eq_ok_iff call callee).1 hcall
  have hlink := register_retire_of_links hlinks hr
  refine ⟨?_, ?_, hlink, ?_⟩
  · intro hop
    rw [pc_retire, effect_of_jal hop]
    exact Word.toNat_add_eq_emod pc offset
  · intro hop
    rw [pc_retire, effect_of_jalr hop]
    have hsum := Word.toNat_add_eq_emod base offset
    have hclear := Word.toNat_and_not_one (base + offset)
    show ((((base + offset) &&& ~~~1).toNat : Nat) : Int) = _
    omega
  · intro j ret after hbody hkeeps hreturns hret
    obtain ⟨-, rfl⟩ := (step_eq_ok_iff ret after).1 hret
    have hzero : call.retire.hart.register 0 = 0 :=
      (hreaches.step hcall).register_zero ((conforms_reset config).load code data).zero
    have hregister : ret.hart.register r = pc + 4 := (hbody.register_eq hzero hkeeps).trans hlink
    -- The call has retired, so its address is even.
    have heven : pc.toNat % 2 = 0 := hreaches.even_pc rfl (fetches_of_halt?_eq_none hnone).running
    have hadd : (pc + 4).toNat = (pc.toNat + 4) % 2 ^ 32 := BitVec.toNat_add ..
    rw [pc_retire_of_returns hreturns (by rw [hregister]; omega), hregister, hadd]

/-- A `jalr` at address 4 to the odd address 13 in its own destination register, a function at 12
that writes another register, and the return to address 8. -/
theorem return_to_link_jalr :
    let code := [0x00D00093, 0x000080E7, 0x00000073, 0x00700113, 0x00008067].flatMap Word.bigBytes
    let call := ((reset {}).load code []).retire
    let ret := call.retire.retire
    Reaches ((reset {}).load code []) 1 call ∧ call.step = .ok call.retire ∧ call.Links 1 ∧
      call.hart.register call.instruction.rs1 = 13 ∧ call.retire.hart.pc.toNat = 12 ∧
      Reaches call.retire 1 ret ∧ ¬ call.retire.Writes 1 ∧ ret.Returns 1 ∧
      ret.step = .ok ret.retire ∧ ret.retire.hart.pc.toNat = 8 := by
  intro code call ret
  let m := (reset {}).load code []
  have hfirst : Reaches m 1 call := .step .refl ((step_eq_ok_iff _ _).2 ⟨by decide +kernel, rfl⟩)
  have hcall : call.step = .ok call.retire := (step_eq_ok_iff _ _).2 ⟨by decide +kernel, rfl⟩
  have hbody : Reaches call.retire 1 ret :=
    .step .refl ((step_eq_ok_iff _ _).2 ⟨by decide +kernel, rfl⟩)
  have hret : ret.step = .ok ret.retire := (step_eq_ok_iff _ _).2 ⟨by decide +kernel, rfl⟩
  have hlinks : call.Links 1 := ⟨.inr (by decide +kernel), by decide +kernel⟩
  have hreturns : ret.Returns 1 := ⟨by decide +kernel, by decide +kernel, by decide +kernel⟩
  have hkeeps : ¬ call.retire.Writes 1 := by decide +kernel
  obtain ⟨-, -, -, hreturn⟩ := return_to_link {} code [] hfirst hcall hlinks (by decide)
  have hpc : call.hart.pc = 4 := by decide +kernel
  have hback := hreturn 1 ret ret.retire hbody ?_ hreturns hret
  · rw [hpc] at hback
    exact ⟨hfirst, hcall, hlinks, by decide +kernel, by decide +kernel, hbody, hkeeps, hreturns, hret,
      hback⟩
  · intro i hi mid hmid
    obtain rfl := Nat.lt_one_iff.1 hi
    cases hmid
    exact hkeeps

end Machine

end RefHart
