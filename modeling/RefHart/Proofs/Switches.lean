import Mathlib
import RefHart.Proofs.Running

/-!
# The switches of a hart

**Theorem (`runs_agree_until_separated`).** Two runs on the same images, with the same memory sizes
and the same bound but other switches, pass through the same states up to the first instruction that
separates the settings: a multiplication or division of which one hart has the extension, a system
instruction that stops one run, or an access outside the data memory that one policy forbids.
Without such an instruction the results are the same.

A step consults the switches in three places, for the mnemonic that is active, for the target of a
system instruction and for the fault of an access. Where the instruction separates nothing, all
three answers are the same (`effect_under`, `fault?_under`), so the step commutes with changing the
switches (`step_under`) and so does the run.
-/

namespace RefHart

open Hart

/-! ## Other switches -/

namespace Hart

/-- The hart under other switches. -/
def under (h : Hart) (switches : HartConfig) : Hart := { h with config := switches }

theorem apply_under (h : Hart) (switches : HartConfig) (memory : Memory) (e : Effect) :
    (h.under switches).apply memory e =
      ((h.apply memory e).1.under switches, (h.apply memory e).2) := by
  cases e with
  | jump | write => rfl
  | load | store =>
    rw [apply, apply]
    split_ifs <;> rfl

end Hart

namespace Machine

/-- The machine under other switches. -/
def under (m : Machine) (switches : HartConfig) : Machine :=
  { m with hart := m.hart.under switches }

/-- Whether the instruction at the program counter, which has the given mnemonic, is a load or store
outside the data memory. -/
def AccessesOutside (m : Machine) (op : Mnemonic) : Prop :=
  ∃ width, op.accessWidth? = some width ∧
    m.dmem.size < (m.hart.register m.instruction.rs1 + m.instruction.imm).toNat + width

/-- Whether the machine is about to execute an instruction that separates two settings of the
switches: one that a switch is about which they set differently. -/
def Separates (m : Machine) (c c' : HartConfig) : Prop :=
  m.Fetches ∧ ∃ op, m.instruction.op = some op ∧
    (op.isMulDiv = true ∧ c.mulDiv ≠ c'.mulDiv ∨
      op.description.opcode = .system ∧
        c.haltOn.contains (haltFlag op) ≠ c'.haltOn.contains (haltFlag op) ∨
      m.AccessesOutside op ∧ c.outOfRange ≠ c'.outOfRange)

end Machine

/-! ## Steps -/

/-- Only a system instruction looks at a switch. -/
theorem Instruction.effectOf_congr (d : Instruction) {op : Mnemonic} {c c' : HartConfig}
    (h : op.description.opcode = .system →
      c.haltOn.contains (haltFlag op) = c'.haltOn.contains (haltFlag op)) (pc a b : Word) :
    d.effectOf op c pc a b = d.effectOf op c' pc a b := by
  rw [effectOf, effectOf]
  cases hcode : op.description.opcode with
  | system => rw [h hcode]
  | _ => rfl

namespace Machine

section Step

variable {m : Machine} {c c' : HartConfig}

theorem eq_of_not_separates (h : ¬ m.Separates c c') (hfetches : m.Fetches) {op : Mnemonic}
    (hop : m.instruction.op = some op) :
    (op.isMulDiv = true → c.mulDiv = c'.mulDiv) ∧
      (op.description.opcode = .system →
        c.haltOn.contains (haltFlag op) = c'.haltOn.contains (haltFlag op)) ∧
      (m.AccessesOutside op → c.outOfRange = c'.outOfRange) := by
  refine ⟨?_, ?_, ?_⟩
  · intro hmulDiv
    by_contra hne
    exact h ⟨hfetches, op, hop, .inl ⟨hmulDiv, hne⟩⟩
  · intro hsystem
    by_contra hne
    exact h ⟨hfetches, op, hop, .inr (.inl ⟨hsystem, hne⟩)⟩
  · intro houtside
    by_contra hne
    exact h ⟨hfetches, op, hop, .inr (.inr ⟨houtside, hne⟩)⟩

theorem effect_under (h : ¬ m.Separates m.hart.config c) (hfetches : m.Fetches) :
    (m.hart.under c).effect m.instruction = m.hart.effect m.instruction := by
  show m.instruction.effect c _ _ _ = m.instruction.effect m.hart.config _ _ _
  rw [Instruction.effect, Instruction.effect, Instruction.active?, Instruction.active?]
  cases hop : m.instruction.op with
  | none => rfl
  | some op =>
    obtain ⟨hmulDiv, hsystem, -⟩ := eq_of_not_separates h hfetches hop
    have hactive : (c.mulDiv || !op.isMulDiv) = (m.hart.config.mulDiv || !op.isMulDiv) := by
      cases hm : op.isMulDiv with
      | false => rw [Bool.not_false, Bool.or_true, Bool.or_true]
      | true => rw [hmulDiv hm]
    rw [Option.filter_some, Option.filter_some, hactive]
    split_ifs
    · exact (m.instruction.effectOf_congr hsystem _ _ _).symm
    · rfl

theorem fault?_under (h : ¬ m.Separates m.hart.config c) (hfetches : m.Fetches) :
    (m.under c).fault? = m.fault? := by
  show (m.hart.under c).fault? m.dmem m.instruction = m.hart.fault? m.dmem m.instruction
  rw [Hart.fault?, Hart.fault?, effect_under h hfetches]
  cases haccess : (m.hart.effect m.instruction).access? with
  | none => rfl
  | some access =>
    obtain ⟨address, width⟩ := access
    obtain ⟨op, hop, hwidth, rfl⟩ := (m.hart.access?_effect_eq_some_iff _ _ _).1 haccess
    by_cases hholds : m.dmem.Holds (m.hart.register m.instruction.rs1 + m.instruction.imm) width
    · simp only [hholds, not_true_eq_false, and_false, if_false]
    · have hpolicy : m.hart.config.outOfRange = c.outOfRange :=
        (eq_of_not_separates h hfetches hop).2.2 ⟨width, hwidth, not_le.1 hholds⟩
      simp only [hpolicy]
      rfl

/-- What is tested before the fault of the instruction has nothing to do with the switches. -/
theorem halt?_under (h : ¬ m.Separates m.hart.config c) : (m.under c).halt? = m.halt? := by
  rw [halt?_eq, halt?_eq]
  show (if haltThreshold ≤ m.hart.pc then _ else if m.maxCycles ≤ m.cycles then _ else
    if m.imem.size < m.hart.pc.toNat + 4 then _ else if m.word = 0 then _ else _) = _
  split_ifs with hhalted hbound hin hzero
  case neg =>
    rw [fault?_under h ⟨BitVec.not_le.1 hhalted, not_le.1 hbound, not_lt.1 hin⟩]
  all_goals rfl

theorem retire_under (h : ¬ m.Separates m.hart.config c) (hfetches : m.Fetches) :
    (m.under c).retire = m.retire.under c := by
  show (⟨((m.hart.under c).apply m.dmem ((m.hart.under c).effect m.instruction)).1, m.imem,
    ((m.hart.under c).apply m.dmem ((m.hart.under c).effect m.instruction)).2, m.cycles + 1,
    m.maxCycles⟩ : Machine) = _
  rw [effect_under h hfetches, Hart.apply_under]
  rfl

theorem step_under (h : ¬ m.Separates m.hart.config c) :
    (m.under c).step = m.step.map (·.under c) := by
  rw [step, step, halt?_under h]
  cases hhalt : m.halt? with
  | some halt => rfl
  | none => exact congrArg Except.ok (retire_under h (fetches_of_halt?_eq_none hhalt))

end Step

/-! ## Runs -/

section Run

variable {m m' : Machine} {c c' : HartConfig} {k : Nat}

/-- It does not matter under which switches the two settings are compared, nor in which order. -/
theorem Separates.under_symm (h : m.Separates c c') (switches : HartConfig) :
    (m.under switches).Separates c' c := by
  obtain ⟨hfetches, op, hop, hswitch⟩ := h
  refine ⟨{ hfetches with }, op, hop, ?_⟩
  rcases hswitch with ⟨hmulDiv, hne⟩ | ⟨hsystem, hne⟩ | ⟨houtside, hne⟩
  · exact .inl ⟨hmulDiv, hne.symm⟩
  · exact .inr (.inl ⟨hsystem, hne.symm⟩)
  · exact .inr (.inr ⟨houtside, hne.symm⟩)

theorem Reaches.under (h : Reaches m k m')
    (hsame : ∀ j < k, ∀ n, Reaches m j n → ¬ n.Separates m.hart.config c) :
    Reaches (m.under c) k (m'.under c) := by
  refine h.map (f := (·.under c)) fun j hj n n' hreaches hstep => ?_
  have hsep := hsame j hj n hreaches
  rw [← hreaches.config_eq] at hsep
  rw [step_under hsep, hstep]
  rfl

theorem Reaches.of_under (h : Reaches (m.under c) k m')
    (hsame : ∀ j < k, ∀ n, Reaches m j n → ¬ n.Separates m.hart.config c) :
    Reaches m k (m'.under m.hart.config) := by
  induction h with
  | refl => exact .refl
  | @step k n n' hreaches hlast ih =>
    have hback : Reaches m k (n.under m.hart.config) :=
      ih fun j hj => hsame j (hj.trans k.lt_succ_self)
    have hsep : ¬ n.Separates n.hart.config m.hart.config := by
      rw [hreaches.config_eq]
      exact fun h => hsame k k.lt_succ_self _ hback (h.under_symm m.hart.config)
    refine .step hback ?_
    rw [step_under hsep, hlast]
    rfl

theorem run_under (h : ∀ j n, Reaches m j n → ¬ n.Separates m.hart.config c) :
    (m.under c).run = (m.run.1.under c, m.run.2) := by
  obtain ⟨k, hreaches, hhalt⟩ := m.exists_reaches_run
  refine run_of_reaches (hreaches.under fun j _ => h j) ?_
  have hsep := h k m.run.1 hreaches
  rw [← hreaches.config_eq] at hsep
  rw [halt?_under hsep, hhalt]

end Run

/-! ## The policy for accesses outside -/

section Policy

variable {m n : Machine} {c : HartConfig} {k : Nat}

/-- An instruction that separates the two policies is a fault under one of them. -/
theorem exists_fault_of_separates (hpolicy : m.hart.config.outOfRange = .fault)
    (h : m.Separates { c with outOfRange := .fault } { c with outOfRange := .ignore }) :
    ∃ pc address, m.halt? = some (.fault pc address) := by
  obtain ⟨hfetches, op, hop, ⟨-, hne⟩ | ⟨-, hne⟩ | ⟨⟨width, hwidth, houtside⟩, -⟩⟩ := h
  · contradiction
  · contradiction
  · have hword : m.word ≠ 0 := by
      intro hzero
      rw [instruction, hzero] at hop
      contradiction
    exact ⟨_, _, (m.halt?_eq_some_iff (.fault m.hart.pc _)).2
      ⟨hfetches, hword, rfl, hpolicy, op, width, hop, hwidth, rfl, houtside⟩⟩

theorem exists_run_eq_of_separates (hconfig : m.hart.config = { c with outOfRange := .fault })
    (hreaches : Reaches m k n)
    (h : n.Separates { c with outOfRange := .fault } { c with outOfRange := .ignore }) :
    ∃ pc address, m.run = (n, .fault pc address) := by
  have hpolicy : n.hart.config.outOfRange = .fault := by rw [hreaches.config_eq, hconfig]
  obtain ⟨pc, address, hhalt⟩ := exists_fault_of_separates hpolicy h
  exact ⟨pc, address, run_of_reaches hreaches hhalt⟩

/-- The run that stops at a fault is the beginning of the run that ignores it. -/
theorem Reaches.under_ignore (hconfig : m.hart.config = { c with outOfRange := .fault })
    (h : Reaches m k m.run.1) :
    Reaches (m.under { c with outOfRange := .ignore }) k
      (m.run.1.under { c with outOfRange := .ignore }) := by
  refine h.under fun j hj n hreaches hsep => ?_
  rw [hconfig] at hsep
  obtain ⟨pc, address, hrun⟩ := exists_run_eq_of_separates hconfig hreaches hsep
  -- The run would have ended after `j` steps already.
  have hk := h.cycles_eq
  rw [hrun, hreaches.cycles_eq] at hk
  omega

theorem run_under_ignore (hconfig : m.hart.config = { c with outOfRange := .fault })
    (h : ∀ pc address, m.run.2 ≠ .fault pc address) :
    (m.under { c with outOfRange := .ignore }).run =
      (m.run.1.under { c with outOfRange := .ignore }, m.run.2) := by
  refine run_under fun j n hreaches hsep => ?_
  rw [hconfig] at hsep
  obtain ⟨pc, address, hrun⟩ := exists_run_eq_of_separates hconfig hreaches hsep
  exact h pc address (congrArg Prod.snd hrun)

end Policy

end Machine

/-! ## Results -/

/-- The settings with other switches. -/
def MachineConfig.withSwitches (config : MachineConfig) (switches : HartConfig) : MachineConfig :=
  { config with hart := switches }

namespace Machine

/-- Runs under different switches agree up to the first instruction that separates them, and have
the same result if there is none. A run that a fault stops is where the run that ignores such
accesses is at this point. -/
theorem runs_agree_until_separated (config : MachineConfig) (code data : List Byte) :
    let fresh (c : HartConfig) := (reset (config.withSwitches c)).load code data
    let result (c : HartConfig) := (config.withSwitches c).simulate code data
    (∀ c c' k, (∀ j < k, ∀ n, Reaches (fresh c) j n → ¬ n.Separates c c') →
        ∀ n : Machine, Reaches (fresh c) k (n.under c) ↔ Reaches (fresh c') k (n.under c')) ∧
      (∀ c c', (∀ j n, Reaches (fresh c) j n → ¬ n.Separates c c') → result c = result c') ∧
      ∀ c : HartConfig,
        let stopping := result { c with outOfRange := .fault }
        ((∀ pc address, stopping.halt ≠ .fault pc address) →
            stopping = result { c with outOfRange := .ignore }) ∧
          ∀ pc address, stopping.halt = .fault pc address →
            ∃ n, Reaches (fresh { c with outOfRange := .ignore }) stopping.cycles n ∧
              n.hart.registers = stopping.registers ∧ n.dmem.bytes = stopping.dmem ∧
              n.cycles = stopping.cycles ∧ n.hart.pc = stopping.pc := by
  intro fresh result
  refine ⟨?_, ?_, ?_⟩
  · intro c c' k hsame n
    have hunder : (fresh c).under c' = fresh c' := rfl
    rw [← hunder]
    constructor
    · intro h
      exact h.under hsame
    · intro h
      exact h.of_under hsame
  · intro c c' hsame
    have hrun : (fresh c').run = ((fresh c).run.1.under c', (fresh c).run.2) := run_under hsame
    show RunResult.of (fresh c).run = RunResult.of (fresh c').run
    rw [hrun]
    rfl
  · intro c stopping
    let m := fresh { c with outOfRange := .fault }
    have hconfig : m.hart.config = { c with outOfRange := .fault } := rfl
    refine ⟨?_, ?_⟩
    · intro hne
      have hrun := run_under_ignore hconfig hne
      show RunResult.of m.run = RunResult.of (m.under { c with outOfRange := .ignore }).run
      rw [hrun]
      rfl
    · intro pc address _
      have hignore := (m.reaches_run rfl).1.under_ignore hconfig
      exact ⟨_, hignore, rfl, rfl, rfl, rfl⟩

/-- A store outside the data memory, after an instruction that makes its address. -/
theorem runs_agree_until_separated_store :
    let code : List Byte := [0x06, 0x40, 0x00, 0x93, 0x00, 0x00, 0xA0, 0x23]
    let config : MachineConfig := {}
    let r := (config.withSwitches { outOfRange := .fault }).simulate code []
    r.halt = .fault 4 100 ∧ ∃ n,
      Reaches ((reset (config.withSwitches { outOfRange := .ignore })).load code []) r.cycles n ∧
        n.hart.registers = r.registers ∧ n.dmem.bytes = r.dmem ∧ n.cycles = r.cycles ∧
        n.hart.pc = r.pc := by
  intro code config r
  let m := (reset (config.withSwitches { outOfRange := .fault })).load code []
  have hfirst : m.halt? = none := by decide +kernel
  have hsecond : m.retire.halt? = some (.fault 4 100) := by decide +kernel
  have hhalt : r.halt = .fault 4 100 := by
    show m.run.2 = .fault 4 100
    rw [run_of_halt?_eq_none hfirst, run_of_halt?_eq_some hsecond]
  have hruns := runs_agree_until_separated config code []
  exact ⟨hhalt, (hruns.2.2 {}).2 4 100 hhalt⟩

end Machine

end RefHart
