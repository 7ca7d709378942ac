import Mathlib
import RefHart.Machine.Run
import RefHart.Proofs.Memory

/-!
# Steps and runs

**Steps.** A step retires the instruction at the program counter or gives a halt
(`step_eq_ok_iff`, `step_eq_error_iff`). What a halt says of the machine that it stops is
`Halt.Describes`; the five descriptions exclude one another, so they tell exactly which halt is given
(`halt?_eq_some_iff`).

**Runs.** `Reaches` counts the steps from one machine to another. A run is a row of steps up to a
machine that halts (`exists_reaches_run`), and every machine on the way has the same run
(`run_eq_of_reaches`). Retiring leaves alone all that the lemmas of the first section list.
-/

namespace RefHart

open Hart

/-! ## Effects -/

/-- Where the program counter goes. -/
def Effect.target : Effect → Word
  | jump target | write _ _ target | load _ _ _ _ target | store _ _ _ target => target

namespace Hart

variable (h : Hart) (memory : Memory)

@[simp] theorem pc_apply (e : Effect) : (h.apply memory e).1.pc = e.target := by
  cases e with
  | jump | write => rfl
  | load | store => rw [apply]; split_ifs <;> rfl

@[simp] theorem config_apply (e : Effect) : (h.apply memory e).1.config = h.config := by
  cases e with
  | jump | write => rfl
  | load | store => rw [apply]; split_ifs <;> rfl

@[simp] theorem size_apply (e : Effect) : (h.apply memory e).2.size = memory.size := by
  cases e with
  | jump | write => rfl
  | load => rw [apply]; split_ifs <;> rfl
  | store => rw [apply]; split_ifs <;> simp only [Memory.size_set]

end Hart

/-- How many bytes an access to the data memory touches. -/
def Mnemonic.accessWidth? : Mnemonic → Option Nat
  | lb | lbu | sb => some 1
  | lh | lhu | sh => some 2
  | lw | sw => some 4
  | _ => none

theorem Mnemonic.isMulDiv_eq_false {op : Mnemonic} {width : Nat} (h : op.accessWidth? = some width) :
    op.isMulDiv = false := by
  cases op <;> first | rfl | contradiction

theorem Instruction.access?_effectOf (d : Instruction) (op : Mnemonic) (config : HartConfig)
    (pc a b : Word) :
    (d.effectOf op config pc a b).access? = op.accessWidth?.map fun width => (a + d.imm, width) := by
  cases op <;> rfl

/-- The loads and stores access the data memory, at the sum of a register and the immediate. -/
theorem Hart.access?_effect_eq_some_iff (h : Hart) (d : Instruction) (address : Word) (width : Nat) :
    (h.effect d).access? = some (address, width) ↔
      ∃ op, d.op = some op ∧ op.accessWidth? = some width ∧
        address = h.register d.rs1 + d.imm := by
  unfold Hart.effect Instruction.effect Instruction.active?
  cases hop : d.op with
  | none => simp [Effect.access?]
  | some op =>
    by_cases hactive : h.config.mulDiv || !op.isMulDiv
    · rw [Option.filter_some, if_pos hactive]
      simp only [Instruction.access?_effectOf, Option.map_eq_some_iff, Prod.mk.injEq,
        Option.some.injEq]
      constructor
      · rintro ⟨w, hw, rfl, rfl⟩
        exact ⟨op, rfl, hw, rfl⟩
      · rintro ⟨_, rfl, hw, rfl⟩
        exact ⟨width, hw, rfl, rfl⟩
    · rw [Option.filter_some, if_neg hactive]
      constructor
      · exact nofun
      · rintro ⟨_, hopeq, hw, -⟩
        obtain rfl := Option.some.inj hopeq
        rw [Mnemonic.isMulDiv_eq_false hw] at hactive
        simp at hactive

/-- The fault of a load or store outside the data memory, under the policy that stops there. -/
theorem Hart.fault?_eq_some_iff (h : Hart) (memory : Memory) (d : Instruction) (fault : BusFault) :
    h.fault? memory d = some fault ↔
      fault.pc = h.pc ∧ h.config.outOfRange = .fault ∧
        ∃ op width, d.op = some op ∧ op.accessWidth? = some width ∧
          fault.address = h.register d.rs1 + d.imm ∧
          memory.size < fault.address.toNat + width ∧
          fault.cause = ⟨width, fault.address, memory.size⟩ := by
  have haccess := h.access?_effect_eq_some_iff d
  unfold fault?
  split
  · rename_i address width heq
    obtain ⟨op, hop, hwidth, haddress⟩ := (haccess address width).1 heq
    split_ifs with hfault
    · obtain ⟨hpolicy, hholds⟩ := hfault
      rw [Memory.Holds, not_le] at hholds
      constructor
      · intro hsome
        obtain rfl := Option.some.inj hsome
        exact ⟨rfl, hpolicy, op, width, hop, hwidth, haddress, hholds, rfl⟩
      · rintro ⟨hpc, -, op', width', hop', hwidth', haddress', -, hcause⟩
        obtain rfl := Option.some.inj (hop.symm.trans hop')
        obtain rfl := Option.some.inj (hwidth.symm.trans hwidth')
        obtain ⟨pc, address', cause⟩ := fault
        simp only at hpc haddress' hcause
        rw [hcause, haddress', ← haddress, hpc]
    · refine iff_of_false nofun ?_
      rintro ⟨-, hpolicy, op', width', hop', hwidth', haddress', hsize, -⟩
      obtain rfl := Option.some.inj (hop.symm.trans hop')
      obtain rfl := Option.some.inj (hwidth.symm.trans hwidth')
      rw [haddress', ← haddress] at hsize
      exact hfault ⟨hpolicy, not_le.2 hsize⟩
  · rename_i heq
    refine iff_of_false nofun ?_
    rintro ⟨-, -, op, width, hop, hwidth, -⟩
    rw [(haccess _ width).2 ⟨op, hop, hwidth, rfl⟩] at heq
    contradiction

/-- An instruction that does not access the data memory raises no trap. -/
theorem Hart.execute_of_accessWidth? {h : Hart} {memory : Memory} {d : Instruction} {op : Mnemonic}
    (hop : d.op = some op) (hwidth : op.accessWidth? = none) :
    h.execute memory d = .ok (h.apply memory (h.effect d)) := by
  have haccess : (h.effect d).access? = none := by
    by_contra hne
    obtain ⟨⟨address, width⟩, hsome⟩ := Option.ne_none_iff_exists'.1 hne
    obtain ⟨op', hop', hwidth', -⟩ := (h.access?_effect_eq_some_iff d address width).1 hsome
    obtain rfl := Option.some.inj (hop.symm.trans hop')
    rw [hwidth] at hwidth'
    contradiction
  rw [execute, fault?, haccess]

/-! ## Halts -/

/-- Nothing that is tested before the instruction word speaks against fetching it. -/
structure Machine.Fetches (m : Machine) : Prop where
  running : m.hart.pc < haltThreshold
  bounded : m.cycles < m.maxCycles
  inside : m.hart.pc.toNat + 4 ≤ m.imem.size

/-- What a halt says of the machine that it stops. -/
def Halt.Describes (m : Machine) : Halt → Prop
  | .system => haltThreshold ≤ m.hart.pc
  | .cycleBound => m.hart.pc < haltThreshold ∧ m.maxCycles ≤ m.cycles
  | .pcOutOfRange pc =>
    m.hart.pc < haltThreshold ∧ m.cycles < m.maxCycles ∧ m.imem.size < m.hart.pc.toNat + 4 ∧
      pc = m.hart.pc
  | .zeroWord => m.Fetches ∧ m.word = 0
  | .fault pc address =>
    m.Fetches ∧ m.word ≠ 0 ∧ pc = m.hart.pc ∧ m.hart.config.outOfRange = .fault ∧
      ∃ op width, m.instruction.op = some op ∧ op.accessWidth? = some width ∧
        address = m.hart.register m.instruction.rs1 + m.instruction.imm ∧
        m.dmem.size < address.toNat + width

namespace Machine

variable {m m' m'' : Machine} {k : Nat}

theorem fault?_eq_some_iff (m : Machine) (fault : BusFault) :
    m.fault? = some fault ↔
      fault.pc = m.hart.pc ∧ m.hart.config.outOfRange = .fault ∧
        ∃ op width, m.instruction.op = some op ∧ op.accessWidth? = some width ∧
          fault.address = m.hart.register m.instruction.rs1 + m.instruction.imm ∧
          m.dmem.size < fault.address.toNat + width ∧
          fault.cause = ⟨width, fault.address, m.dmem.size⟩ :=
  m.hart.fault?_eq_some_iff m.dmem m.instruction fault

theorem halt?_eq (m : Machine) :
    m.halt? =
      if haltThreshold ≤ m.hart.pc then some .system
      else if m.maxCycles ≤ m.cycles then some .cycleBound
      else if m.imem.size < m.hart.pc.toNat + 4 then some (.pcOutOfRange m.hart.pc)
      else if m.word = 0 then some .zeroWord
      else m.fault?.map fun fault => .fault fault.pc fault.address := by
  simp only [halt?, halted, decide_eq_true_eq, Memory.Holds, not_le]

theorem describes_of_halt?_eq_some {halt : Halt} (h : m.halt? = some halt) : halt.Describes m := by
  rw [halt?_eq] at h
  split_ifs at h with hhalted hbound hin hzero
  · obtain rfl := Option.some.inj h
    exact hhalted
  · obtain rfl := Option.some.inj h
    exact ⟨BitVec.not_le.1 hhalted, hbound⟩
  · obtain rfl := Option.some.inj h
    exact ⟨BitVec.not_le.1 hhalted, not_le.1 hbound, hin, rfl⟩
  · obtain rfl := Option.some.inj h
    exact ⟨⟨BitVec.not_le.1 hhalted, not_le.1 hbound, not_lt.1 hin⟩, hzero⟩
  · obtain ⟨fault, hfault, rfl⟩ := Option.map_eq_some_iff.1 h
    obtain ⟨hpc, hpolicy, op, width, hop, hwidth, haddress, hsize, -⟩ :=
      (m.fault?_eq_some_iff fault).1 hfault
    exact ⟨⟨BitVec.not_le.1 hhalted, not_le.1 hbound, not_lt.1 hin⟩, hzero, hpc, hpolicy, op, width,
      hop, hwidth, haddress, hsize⟩

/-- The tests in front of the instruction word are passed. -/
theorem halt?_of_fetches (h : m.Fetches) :
    m.halt? =
      if m.word = 0 then some .zeroWord
      else m.fault?.map fun fault => .fault fault.pc fault.address := by
  rw [halt?_eq, if_neg (BitVec.not_le.2 h.running), if_neg (not_le.2 h.bounded),
    if_neg (not_lt.2 h.inside)]

/-- The halt that is given is the one that describes the machine. -/
theorem halt?_eq_some_iff (m : Machine) (halt : Halt) :
    m.halt? = some halt ↔ halt.Describes m := by
  refine ⟨describes_of_halt?_eq_some, ?_⟩
  intro h
  cases halt with
  | system => exact m.halt?_eq.trans (if_pos h)
  | cycleBound =>
    rw [halt?_eq, if_neg (BitVec.not_le.2 h.1), if_pos h.2]
  | pcOutOfRange pc =>
    obtain ⟨hrunning, hbounded, hsize, rfl⟩ := h
    rw [halt?_eq, if_neg (BitVec.not_le.2 hrunning), if_neg (not_le.2 hbounded),
      if_pos hsize]
  | zeroWord => rw [halt?_of_fetches h.1, if_pos h.2]
  | fault pc address =>
    obtain ⟨hfetches, hword, rfl, hpolicy, op, width, hop, hwidth, haddress, hsize⟩ := h
    have hfault := (m.fault?_eq_some_iff ⟨m.hart.pc, address, width, address, m.dmem.size⟩).2
      ⟨rfl, hpolicy, op, width, hop, hwidth, haddress, hsize, rfl⟩
    rw [halt?_of_fetches hfetches, if_neg hword, hfault]
    rfl

theorem word_eq_zero_iff (m : Machine) : m.word = 0 ↔ m.imem.get m.hart.pc 4 = 0 := by
  have hlt : m.imem.get m.hart.pc 4 < 2 ^ 32 := m.imem.get_lt m.hart.pc 4
  rw [word, ← BitVec.toNat_inj, BitVec.toNat_ofNat, Nat.mod_eq_of_lt hlt]
  rfl

theorem fetch_of_holds (h : m.imem.Holds m.hart.pc 4) : m.hart.fetch m.imem = .ok m.word := by
  have hread : m.imem.read m.hart.pc 4 = .ok (m.imem.get m.hart.pc 4) := if_pos h
  rw [fetch, hread]
  rfl

theorem fetches_of_halt?_eq_none (h : m.halt? = none) : m.Fetches := by
  rw [halt?_eq] at h
  split_ifs at h with hhalted hbound hin hzero
  exact ⟨BitVec.not_le.1 hhalted, not_le.1 hbound, not_lt.1 hin⟩

/-! ## Steps -/

theorem step_eq_ok_iff (m m' : Machine) : m.step = .ok m' ↔ m.halt? = none ∧ m.retire = m' := by
  unfold step
  cases m.halt? with
  | none => simp
  | some halt => simp

theorem step_eq_error_iff (m : Machine) (halt : Halt) :
    m.step = .error halt ↔ halt.Describes m := by
  rw [← halt?_eq_some_iff]
  unfold step
  cases m.halt? with
  | none => simp
  | some halt => simp

/-- A step counts one cycle and keeps to the bound. -/
theorem cycles_of_step (h : m.step = .ok m') :
    m'.cycles = m.cycles + 1 ∧ m'.cycles ≤ m.maxCycles := by
  obtain ⟨hhalt, rfl⟩ := (step_eq_ok_iff m m').1 h
  exact ⟨rfl, (fetches_of_halt?_eq_none hhalt).bounded⟩

@[simp] theorem imem_retire (m : Machine) : m.retire.imem = m.imem := rfl

@[simp] theorem config_retire (m : Machine) : m.retire.hart.config = m.hart.config :=
  m.hart.config_apply m.dmem _

@[simp] theorem pc_retire (m : Machine) :
    m.retire.hart.pc = (m.hart.effect m.instruction).target := m.hart.pc_apply m.dmem _

@[simp] theorem size_dmem_retire (m : Machine) : m.retire.dmem.size = m.dmem.size :=
  m.hart.size_apply m.dmem _

/-! ## Rows of steps -/

/-- `k` steps lead from one machine to another. -/
inductive Reaches (m : Machine) : Nat → Machine → Prop where
  | refl : Reaches m 0 m
  | step {k : Nat} {m' m'' : Machine} : Reaches m k m' → m'.step = .ok m'' → Reaches m (k + 1) m''

namespace Reaches

theorem head (hstep : m.step = .ok m') (h : Reaches m' k m'') : Reaches m (k + 1) m'' := by
  induction h with
  | refl => exact .step .refl hstep
  | step _ hlast ih => exact .step ih hlast

/-- Unless nothing has retired, there is an instruction that retired last. -/
theorem eq_or_exists_last (h : Reaches m k m') :
    m' = m ∨ ∃ k last, Reaches m k last ∧ last.step = .ok m' := by
  cases h with
  | refl => exact .inl rfl
  | step hlast hstep => exact .inr ⟨_, _, hlast, hstep⟩

/-- Nothing retires on a machine that halts. -/
theorem eq_of_halt? {halt : Halt} (h : Reaches m k m') (hhalt : m.halt? = some halt) :
    k = 0 ∧ m' = m := by
  induction h with
  | refl => exact ⟨rfl, rfl⟩
  | step _ hlast ih =>
    obtain ⟨-, rfl⟩ := ih
    rw [((step_eq_ok_iff _ _).1 hlast).1] at hhalt
    contradiction

/-- What retiring preserves holds on the way. -/
theorem invariant {p : Machine → Prop} (hretire : ∀ m, p m → m.halt? = none → p m.retire)
    (h : Reaches m k m') (hm : p m) : p m' := by
  induction h with
  | refl => exact hm
  | @step _ m₁ m₂ _ hlast ih =>
    obtain ⟨hhalt, rfl⟩ := (step_eq_ok_iff m₁ m₂).1 hlast
    exact hretire m₁ ih hhalt

/-- A change of machines that commutes with the steps on the way commutes with the way. -/
theorem map {f : Machine → Machine} (h : Reaches m k m')
    (hstep : ∀ j < k, ∀ m₁ m₂, Reaches m j m₁ → m₁.step = .ok m₂ → (f m₁).step = .ok (f m₂)) :
    Reaches (f m) k (f m') := by
  induction h with
  | refl => exact .refl
  | @step k m₁ m₂ hreaches hlast ih =>
    refine .step (ih fun j hj => hstep j (hj.trans k.lt_succ_self)) ?_
    exact hstep k k.lt_succ_self m₁ m₂ hreaches hlast

theorem imem_eq (h : Reaches m k m') : m'.imem = m.imem :=
  h.invariant (p := (·.imem = m.imem)) (fun _ hm _ => hm) rfl

theorem maxCycles_eq (h : Reaches m k m') : m'.maxCycles = m.maxCycles :=
  h.invariant (p := (·.maxCycles = m.maxCycles)) (fun _ hm _ => hm) rfl

theorem config_eq (h : Reaches m k m') : m'.hart.config = m.hart.config :=
  h.invariant (p := (·.hart.config = m.hart.config)) (fun m hm _ => (config_retire m).trans hm) rfl

theorem cycles_eq (h : Reaches m k m') : m'.cycles = m.cycles + k := by
  induction h with
  | refl => rfl
  | step _ hlast ih => rw [(cycles_of_step hlast).1, ih, Nat.add_assoc]

theorem cycles_le (h : Reaches m k m') : m'.cycles ≤ max m.cycles m.maxCycles := by
  cases h with
  | refl => exact le_max_left ..
  | step hreaches hlast =>
    exact (hreaches.maxCycles_eq ▸ (cycles_of_step hlast).2).trans (le_max_right ..)

end Reaches

/-! ## Runs -/

theorem run_of_halt?_eq_some {halt : Halt} (h : m.halt? = some halt) : m.run = (m, halt) := by
  unfold run
  split
  · rename_i heq
    rw [Option.some.inj (heq.symm.trans h)]
  · rename_i heq
    rw [h] at heq
    contradiction

theorem run_of_halt?_eq_none (h : m.halt? = none) : m.run = m.retire.run := by
  rw [run.eq_def]
  split
  · rename_i heq
    rw [h] at heq
    contradiction
  · rfl

/-- A run is a row of steps up to a machine that halts. -/
theorem exists_reaches_run (m : Machine) :
    ∃ k, Reaches m k m.run.1 ∧ m.run.1.halt? = some m.run.2 := by
  induction m using run.induct with
  | case1 m halt h =>
    rw [run_of_halt?_eq_some h]
    exact ⟨0, .refl, h⟩
  | case2 m h ih =>
    obtain ⟨k, hreaches, hhalt⟩ := ih
    rw [run_of_halt?_eq_none h]
    exact ⟨k + 1, .head ((step_eq_ok_iff m _).2 ⟨h, rfl⟩) hreaches, hhalt⟩

/-- From a machine that has not retired anything, the cycles count the steps of the run. -/
theorem reaches_run (h : m.cycles = 0) :
    Reaches m m.run.1.cycles m.run.1 ∧ m.run.1.halt? = some m.run.2 := by
  obtain ⟨k, hreaches, hhalt⟩ := m.exists_reaches_run
  have hk : m.run.1.cycles = k := by rw [hreaches.cycles_eq, h, Nat.zero_add]
  rw [hk]
  exact ⟨hreaches, hhalt⟩

/-- The halt of a run describes the machine in which it ends. -/
theorem run_snd_eq_iff (m : Machine) (halt : Halt) :
    m.run.2 = halt ↔ halt.Describes m.run.1 := by
  obtain ⟨-, -, hhalt⟩ := m.exists_reaches_run
  rw [← halt?_eq_some_iff, hhalt, Option.some.injEq]

/-- A machine that is reached has the same run. -/
theorem run_eq_of_reaches (h : Reaches m k m') : m.run = m'.run := by
  induction h with
  | refl => rfl
  | step _ hlast ih =>
    obtain ⟨hhalt, rfl⟩ := (step_eq_ok_iff _ _).1 hlast
    exact ih.trans (run_of_halt?_eq_none hhalt)

theorem run_of_reaches {halt : Halt} (h : Reaches m k m') (hhalt : m'.halt? = some halt) :
    m.run = (m', halt) := (run_eq_of_reaches h).trans (run_of_halt?_eq_some hhalt)

end Machine

/-! ## Fresh machines -/

/-- There are memories of the configured sizes. -/
def MachineConfig.Possible (config : MachineConfig) : Prop :=
  config.imemSize ≤ Memory.maxSize ∧ config.dmemSize ≤ Memory.maxSize

instance (config : MachineConfig) : Decidable config.Possible :=
  inferInstanceAs (Decidable (_ ∧ _))

theorem Machine.fresh?_eq (config : MachineConfig) :
    fresh? config = if config.Possible then some (reset config) else none := by
  rw [fresh?, Memory.zeros?, Memory.zeros?]
  by_cases himem : config.imemSize ≤ Memory.maxSize
  · by_cases hdmem : config.dmemSize ≤ Memory.maxSize
    · have hpossible : config.Possible := ⟨himem, hdmem⟩
      rw [if_pos himem, if_pos hdmem, if_pos hpossible]
      rfl
    · have hnot : ¬ config.Possible := fun h => hdmem h.2
      rw [if_pos himem, if_neg hdmem, if_neg hnot]
      rfl
  · have hnot : ¬ config.Possible := fun h => himem h.1
    rw [if_neg himem, if_neg hnot]
    rfl

theorem MachineConfig.simulate?_eq (config : MachineConfig) (code data : List Byte) :
    config.simulate? code data =
      if config.Possible then some (config.simulate code data) else none := by
  rw [simulate?, Machine.fresh?_eq]
  split_ifs <;> rfl

end RefHart
