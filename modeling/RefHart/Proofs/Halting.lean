import Mathlib
import RefHart.Proofs.Decoding
import RefHart.Proofs.Running

/-!
# Which instruction ends a run

The halted addresses are told from the others by their size alone, so a run that ends there was not
always ended by a system instruction: a jump, a branch or a fall-through may lead there, too, for
instance a jump to an address just below 0.

**Theorem (`pc_even_or_haltPc_of_reaches`).** On every machine that a fresh one reaches, the program
counter is even, or a system instruction has stopped the run and nothing retires any more.

**Theorem (`run_halt_of_last`).** A run ends at the halted addresses exactly if the last instruction
either was a system instruction that stops the run, or was none and its successor lies there. The
program counter tells the two apart: it is even after every instruction that is not a stopping system
instruction (`even_successor`), and the address to which these jump is odd. A transfer of control out
of the instruction memory ends the run for the reason that its target and the cycle bound determine.
-/

namespace RefHart

open Hart

/-! ## Parity -/

theorem Word.even_add {v w : Word} (hv : v.toNat % 2 = 0) (hw : w.toNat % 2 = 0) :
    (v + w).toNat % 2 = 0 := by
  rw [BitVec.toNat_add]
  omega

/-- Clearing the lowest bit rounds down to an even number. -/
theorem Word.toNat_and_not_one (w : Word) : (w &&& ~~~1).toNat = w.toNat / 2 * 2 := by
  have hmask : (~~~1 : Word) = BitVec.allOnes 32 <<< 1 := by decide
  have hw := w.isLt
  rw [hmask, ← BitVec.shiftLeft_ushiftRight, BitVec.toNat_shiftLeft, BitVec.toNat_ushiftRight,
    Nat.shiftRight_eq_div_pow, Nat.shiftLeft_eq]
  omega

theorem Word.even_and_not_one (w : Word) : (w &&& ~~~1).toNat % 2 = 0 := by
  rw [toNat_and_not_one]
  omega

namespace Instruction

/-- The offset of a branch or a jump is even. -/
theorem even_imm {w : Word} {op : Mnemonic} (h : (decode w).op = some op)
    (hop : op.description.opcode = .branch ∨ op.description.opcode = .jal) :
    (decode w).imm.toNat % 2 = 0 := by
  have hcode := ofCode?_of_mnemonic? h
  rw [decode, immediate, hcode]
  rcases hop with hop | hop <;> rw [hop]
  · exact even_immB w
  · exact even_immJ w

/-- Where each opcode leads. -/
theorem target_effectOf (d : Instruction) (op : Mnemonic) (config : HartConfig)
    (pc a b : Word) :
    (d.effectOf op config pc a b).target =
      match op.description.opcode with
      | .branch => if Alu.branchTaken op a b then pc + d.imm else pc + 4
      | .jal => pc + d.imm
      | .jalr => (a + d.imm) &&& ~~~1
      | .system => if config.haltOn.contains (haltFlag op) then haltPc else pc + 4
      | _ => pc + 4 := by
  cases op <;> rfl

end Instruction

/-! ## What comes after an instruction -/

namespace Machine

/-- Whether the instruction at the program counter is a system instruction that stops the run. -/
def Stops (m : Machine) : Prop :=
  ∃ op, m.instruction.op = some op ∧ op.description.opcode = .system ∧
    m.hart.config.haltOn.contains (haltFlag op)

/-- The address to which a taken branch, a `jal` or a `jalr` at the program counter transfers
control. -/
def transfer? (m : Machine) : Option Word :=
  let a := m.hart.register m.instruction.rs1
  let b := m.hart.register m.instruction.rs2
  m.instruction.op.bind fun op =>
    match op.description.opcode with
    | .branch => if Alu.branchTaken op a b then some (m.hart.pc + m.instruction.imm) else none
    | .jal => some (m.hart.pc + m.instruction.imm)
    | .jalr => some ((a + m.instruction.imm) &&& ~~~1)
    | _ => none

/-- The address of the next instruction, where no stop comes in between. -/
def successor (m : Machine) : Word := m.transfer?.getD (m.hart.pc + 4)

variable {m : Machine}

theorem stops_iff {op : Mnemonic} (h : m.instruction.op = some op) :
    m.Stops ↔ op.description.opcode = .system ∧ m.hart.config.haltOn.contains (haltFlag op) := by
  constructor
  · rintro ⟨op', hop', hstops⟩
    obtain rfl := Option.some.inj (h.symm.trans hop')
    exact hstops
  · intro hstops
    exact ⟨op, h, hstops⟩

theorem transfer?_eq {op : Mnemonic} (h : m.instruction.op = some op) :
    m.transfer? =
      match op.description.opcode with
      | .branch =>
        if Alu.branchTaken op (m.hart.register m.instruction.rs1)
            (m.hart.register m.instruction.rs2) then some (m.hart.pc + m.instruction.imm)
        else none
      | .jal => some (m.hart.pc + m.instruction.imm)
      | .jalr => some ((m.hart.register m.instruction.rs1 + m.instruction.imm) &&& ~~~1)
      | _ => none := by
  rw [transfer?, h]
  rfl

/-- Only a stopping system instruction leads anywhere else than to the successor. -/
theorem target_effect (m : Machine) :
    (m.Stops ∧ (m.hart.effect m.instruction).target = haltPc) ∨
      (¬ m.Stops ∧ (m.hart.effect m.instruction).target = m.successor) := by
  rw [Hart.effect, Instruction.effect, Instruction.active?, successor]
  cases hop : m.instruction.op with
  | none =>
    refine .inr ⟨?_, by rw [transfer?, hop]; rfl⟩
    rintro ⟨op, hop', -⟩
    rw [hop] at hop'
    contradiction
  | some op =>
    rw [stops_iff hop, transfer?_eq hop, Option.filter_some]
    by_cases hactive : m.hart.config.mulDiv || !op.isMulDiv
    · rw [if_pos hactive]
      dsimp only
      rw [Instruction.target_effectOf]
      cases hcode : op.description.opcode
      case system =>
        by_cases hflag : m.hart.config.haltOn.contains (haltFlag op)
        · exact .inl ⟨⟨rfl, hflag⟩, if_pos hflag⟩
        · exact .inr ⟨fun h => hflag h.2, if_neg hflag⟩
      case branch =>
        refine .inr ⟨nofun, ?_⟩
        dsimp only
        split_ifs <;> rfl
      all_goals exact .inr ⟨nofun, rfl⟩
    · have hcode : op.description.opcode = .op := by
        rw [Mnemonic.isMulDiv] at hactive
        simp_all
      rw [if_neg hactive, hcode]
      exact .inr ⟨nofun, rfl⟩

/-- The successor of an even address is even. -/
theorem even_successor (h : m.hart.pc.toNat % 2 = 0) : m.successor.toNat % 2 = 0 := by
  have hnext : (m.hart.pc + 4).toNat % 2 = 0 := Word.even_add h (by decide)
  unfold successor
  cases hop : m.instruction.op with
  | none =>
    rw [transfer?, hop]
    exact hnext
  | some op =>
    rw [transfer?_eq hop]
    cases hcode : op.description.opcode
    case branch =>
      dsimp only
      split_ifs
      · exact Word.even_add h (Instruction.even_imm hop (.inl hcode))
      · exact hnext
    case jal => exact Word.even_add h (Instruction.even_imm hop (.inr hcode))
    case jalr => exact Word.even_and_not_one _
    all_goals exact hnext

theorem not_stops_of_transfer? {target : Word} (h : m.transfer? = some target) : ¬ m.Stops := by
  rintro ⟨op, hop, hcode, -⟩
  rw [transfer?_eq hop, hcode] at h
  contradiction

/-! ## Parity along runs -/

/-- Along a run from an even address, the program counter is even unless a system instruction has
stopped the run. -/
theorem Reaches.haltPc_or_even_pc {k : Nat} {m' : Machine} (h : Reaches m k m')
    (hm : m.hart.pc.toNat % 2 = 0) : m'.hart.pc = haltPc ∨ m'.hart.pc.toNat % 2 = 0 := by
  refine h.invariant (p := fun m => m.hart.pc = haltPc ∨ m.hart.pc.toNat % 2 = 0) ?_ (.inr hm)
  intro m hp hhalt
  have hne : m.hart.pc ≠ haltPc := by
    intro heq
    have hlt := (fetches_of_halt?_eq_none hhalt).running
    rw [heq] at hlt
    exact absurd hlt (by decide)
  rw [pc_retire]
  rcases m.target_effect with ⟨-, htarget⟩ | ⟨-, htarget⟩
  · exact .inl htarget
  · exact .inr (htarget ▸ even_successor (hp.resolve_left hne))

/-- Along a run from an even address, the program counter is even as long as instructions retire. -/
theorem Reaches.even_pc {k : Nat} {m' : Machine} (h : Reaches m k m') (hm : m.hart.pc.toNat % 2 = 0)
    (hrunning : m'.hart.pc < haltThreshold) : m'.hart.pc.toNat % 2 = 0 := by
  refine (h.haltPc_or_even_pc hm).resolve_left ?_
  intro heq
  rw [heq] at hrunning
  exact absurd hrunning (by decide)

/-- The program counter is even until a system instruction stops the run, and then nothing retires
any more. -/
theorem pc_even_or_haltPc_of_reaches (config : MachineConfig) (code data : List Byte) {k : Nat}
    {m' : Machine} (h : Reaches ((reset config).load code data) k m') :
    (m'.hart.pc.toNat % 2 = 0 ∨ m'.hart.pc = haltPc) ∧
      (m'.hart.pc = haltPc →
        m'.step = .error .system ∧ m'.run = (m', .system) ∧
          ∀ j m'', Reaches m' j m'' → j = 0 ∧ m'' = m') := by
  refine ⟨(h.haltPc_or_even_pc rfl).symm, ?_⟩
  intro hpc
  have hsystem : m'.halt? = some .system := by
    rw [halt?_eq_some_iff]
    show haltThreshold ≤ m'.hart.pc
    rw [hpc]
    decide
  refine ⟨?_, run_of_halt?_eq_some hsystem, fun j m'' hreaches => hreaches.eq_of_halt? hsystem⟩
  rw [step_eq_error_iff, ← halt?_eq_some_iff]
  exact hsystem

/-- A `jalr` to an odd address leads to the even one below, where an `ecall` stops the machine. -/
theorem pc_even_or_haltPc_of_reaches_jalr :
    let m := (reset {}).load [0x00, 0x50, 0x00, 0x67, 0x00, 0x00, 0x00, 0x73] []
    Reaches m 1 m.retire ∧ m.retire.hart.pc = 4 ∧ Reaches m 2 m.retire.retire ∧
      m.retire.retire.hart.pc = haltPc ∧ m.retire.retire.run = (m.retire.retire, .system) := by
  intro m
  have hfirst : m.halt? = none := by decide +kernel
  have hsecond : m.retire.halt? = none := by decide +kernel
  have hone : Reaches m 1 m.retire := .step .refl ((step_eq_ok_iff _ _).2 ⟨hfirst, rfl⟩)
  have htwo : Reaches m 2 m.retire.retire := .step hone ((step_eq_ok_iff _ _).2 ⟨hsecond, rfl⟩)
  have hpc : m.retire.retire.hart.pc = haltPc := by decide +kernel
  exact ⟨hone, by decide +kernel, htwo, hpc, ((pc_even_or_haltPc_of_reaches {} _ _ htwo).2 hpc).2.1⟩

/-! ## The last instruction of a run -/

section Last

variable {last : Machine} {k : Nat}

/-- Where the last instruction of a run has led. -/
theorem pc_of_last (hreaches : Reaches m k last) (hm : m.hart.pc.toNat % 2 = 0)
    (hstep : last.step = .ok m.run.1) :
    last.Stops ∧ m.run.1.hart.pc = haltPc ∨
      ¬ last.Stops ∧ m.run.1.hart.pc = last.successor ∧ last.successor ≠ haltPc := by
  obtain ⟨hnone, hretire⟩ := (step_eq_ok_iff _ _).1 hstep
  rw [← hretire, pc_retire]
  rcases last.target_effect with ⟨hstops, htarget⟩ | ⟨hstops, htarget⟩
  · exact .inl ⟨hstops, htarget⟩
  · -- The successor is even, `haltPc` is not.
    have heven := even_successor (hreaches.even_pc hm (fetches_of_halt?_eq_none hnone).running)
    refine .inr ⟨hstops, htarget, ?_⟩
    intro heq
    rw [heq] at heven
    exact absurd heven (by decide)

/-- The end of a run whose last instruction has transferred control out of the instruction memory. -/
theorem run_snd_of_transfer? (hreaches : Reaches m k last) (hm : m.hart.pc.toNat % 2 = 0)
    (hstep : last.step = .ok m.run.1) {target : Word} (htransfer : last.transfer? = some target)
    (hout : ¬ m.imem.Holds target 4) :
    m.run.2 =
      if haltThreshold ≤ target then .system
      else if m.maxCycles ≤ m.run.1.cycles then .cycleBound
      else .pcOutOfRange target := by
  have hpc : m.run.1.hart.pc = target := by
    rcases pc_of_last hreaches hm hstep with ⟨hstops, -⟩ | ⟨-, hpc, -⟩
    · exact absurd hstops (not_stops_of_transfer? htransfer)
    · rw [hpc, successor, htransfer]
      rfl
  have hfinal : Reaches m (k + 1) m.run.1 := .step hreaches hstep
  have hsize : m.run.1.imem.size < m.run.1.hart.pc.toNat + 4 := by
    rw [hfinal.imem_eq, hpc]
    exact not_le.1 hout
  rw [run_snd_eq_iff, ← hfinal.maxCycles_eq, ← hpc]
  split_ifs with hthreshold hbound
  · exact hthreshold
  · exact ⟨BitVec.not_le.1 hthreshold, hbound⟩
  · exact ⟨BitVec.not_le.1 hthreshold, not_le.1 hbound, hsize, rfl⟩

end Last

/-- A run is reported to have been ended by a system instruction also if a jump or a fall-through
led to the halted addresses. The last instruction tells the two apart. -/
theorem run_halt_of_last (config : MachineConfig) (code data : List Byte) :
    let m := (reset config).load code data
    (m.run.2 = .system → ∃ k last, Reaches m k last ∧ last.step = .ok m.run.1) ∧
      ∀ k last, Reaches m k last → last.step = .ok m.run.1 →
        (last.Stops ∧ m.run.2 = .system ∧ m.run.1.hart.pc = haltPc ∨
          ¬ last.Stops ∧ m.run.1.hart.pc = last.successor ∧ last.successor ≠ haltPc ∧
            (m.run.2 = .system ↔ haltThreshold ≤ last.successor)) ∧
        ∀ target, last.transfer? = some target → ¬ m.imem.Holds target 4 →
          m.run.2 =
            if haltThreshold ≤ target then .system
            else if config.maxCycles ≤ m.run.1.cycles then .cycleBound
            else .pcOutOfRange target := by
  intro m
  have heven : m.hart.pc.toNat % 2 = 0 := rfl
  refine ⟨?_, ?_⟩
  · intro hsystem
    -- A fresh machine is not at the halted addresses, so something has retired.
    obtain ⟨k, hreaches, -⟩ := m.exists_reaches_run
    rcases hreaches.eq_or_exists_last with hfresh | hlast
    · have hthreshold : haltThreshold ≤ m.run.1.hart.pc := (run_snd_eq_iff m .system).1 hsystem
      rw [hfresh, show m.hart.pc = 0 from rfl] at hthreshold
      exact absurd hthreshold (by decide)
    · exact hlast
  · intro k last hreaches hstep
    refine ⟨?_, fun target htransfer hout =>
      run_snd_of_transfer? hreaches heven hstep htransfer hout⟩
    rw [run_snd_eq_iff]
    show last.Stops ∧ haltThreshold ≤ m.run.1.hart.pc ∧ _ ∨ _ ∧ _ ∧ _ ∧ (haltThreshold ≤ _ ↔ _)
    rcases pc_of_last hreaches heven hstep with ⟨hstops, hpc⟩ | ⟨hstops, hpc, hne⟩
    · exact .inl ⟨hstops, hpc ▸ (by decide), hpc⟩
    · exact .inr ⟨hstops, hpc, hne, by rw [hpc]⟩

/-- A jump from address 0 to the word below it counts as a stop by a system instruction. -/
theorem run_halt_of_last_jal :
    let m := (reset {}).load [0xFF, 0xDF, 0xF0, 0x6F] []
    Reaches m 0 m ∧ m.step = .ok m.run.1 ∧ m.transfer? = some 0xFFFFFFFC ∧
      ¬ m.imem.Holds 0xFFFFFFFC 4 ∧ ¬ m.Stops ∧ m.run.2 = .system := by
  intro m
  have hnone : m.halt? = none := by decide +kernel
  have hsystem : m.retire.halt? = some .system := by decide +kernel
  have hstep : m.step = .ok m.run.1 := by
    rw [run_of_halt?_eq_none hnone, run_of_halt?_eq_some hsystem, step_eq_ok_iff]
    exact ⟨hnone, rfl⟩
  have htransfer : m.transfer? = some 0xFFFFFFFC := by decide +kernel
  have hout : ¬ m.imem.Holds 0xFFFFFFFC 4 := by decide +kernel
  have hlast := (run_halt_of_last {} [0xFF, 0xDF, 0xF0, 0x6F] []).2 0 m .refl hstep
  exact ⟨.refl, hstep, htransfer, hout, not_stops_of_transfer? htransfer,
    hlast.2 0xFFFFFFFC htransfer hout⟩

end Machine

end RefHart
