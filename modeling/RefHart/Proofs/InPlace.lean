import Mathlib
import RefHart.Proofs.Running

/-!
# Execution in place

The executor once more, as a sequence of changes to one machine: a stop keeps whatever was changed
before it, and the cycle counter has 64 bits. Working out an effect first and applying it afterwards
comes to the same (`execute_eq_settle`): every stop comes before the first change.

**Theorem (`loop_wellBehaved`).** From every machine, also one that was put together by hand, the loop
of steps comes to an end, counts without overflow, changes nothing in the step that stops it, and
gives the halt that describes the final machine. All that it needs is that the cycle bound is a number
of 64 bits, as the counter is.
-/

namespace RefHart

/-- Changes to a machine that are made one after another, until they are complete or stop. -/
abbrev InPlace (ε : Type) := ExceptT ε (StateM Machine)

/-- The halt that a trap leads to. -/
def Trap.halt : Trap → Halt
  | fetch pc _ => .pcOutOfRange pc
  | bus fault => .fault fault.pc fault.address

namespace InPlace

/-! ## Instructions -/

/-- Writes a register. -/
def setRegister (rd : Nat) (v : Word) : InPlace Trap Unit :=
  modify fun m => { m with hart := m.hart.setRegister rd v }

/-- Moves the program counter. -/
def jump (target : Word) : InPlace Trap Unit :=
  modify fun m => { m with hart := { m.hart with pc := target } }

/-- What a refused access to the data memory does. -/
def refuse (pc address : Word) (cause : AccessError) : InPlace Trap Unit := do
  match (← get).hart.config.outOfRange with
  | .ignore => return
  | .fault => throw (.bus ⟨pc, address, cause⟩)

/-- The access of a load. -/
def load (op : Mnemonic) (d : Instruction) : InPlace Trap Unit := do
  let m ← get
  let address := m.hart.register d.rs1 + d.imm
  match m.dmem.read address (loadKind op).1 with
  | .ok n => setRegister d.rd (extend (loadKind op).1 (loadKind op).2 n)
  | .error cause => refuse m.hart.pc address cause

/-- The access of a store. -/
def store (op : Mnemonic) (d : Instruction) : InPlace Trap Unit := do
  let m ← get
  let address := m.hart.register d.rs1 + d.imm
  match m.dmem.write address (storeWidth op) (m.hart.register d.rs2).toNat with
  | .ok dmem => set { m with dmem }
  | .error cause => refuse m.hart.pc address cause

/-- Carries out a mnemonic: first the registers and the data memory change, last the program
counter. -/
def perform (op : Mnemonic) (d : Instruction) : InPlace Trap Unit := do
  let m ← get
  let pc := m.hart.pc
  let a := m.hart.register d.rs1
  let b := m.hart.register d.rs2
  match op.description.opcode with
  | .op =>
    (Alu.register? op a b).forM (setRegister d.rd)
    jump (pc + 4)
  | .opImm =>
    (Alu.immediate? op a d.imm).forM (setRegister d.rd)
    jump (pc + 4)
  | .load =>
    load op d
    jump (pc + 4)
  | .store =>
    store op d
    jump (pc + 4)
  | .branch => jump (if Alu.branchTaken op a b then pc + d.imm else pc + 4)
  | .lui =>
    setRegister d.rd d.imm
    jump (pc + 4)
  | .auipc =>
    setRegister d.rd (pc + d.imm)
    jump (pc + 4)
  | .jal =>
    setRegister d.rd (pc + 4)
    jump (pc + d.imm)
  | .jalr =>
    setRegister d.rd (pc + 4)
    jump ((a + d.imm) &&& ~~~1)
  | .system =>
    jump (if m.hart.config.haltOn.contains (haltFlag op) then Hart.haltPc else pc + 4)

/-- Executes an instruction. What is not claimed is skipped. -/
def execute (d : Instruction) : InPlace Trap Unit := do
  let m ← get
  match d.active? m.hart.config with
  | some op => perform op d
  | none => jump (m.hart.pc + 4)

/-- Fetches the instruction at the program counter and executes it. -/
def retire : InPlace Trap Unit := do
  let m ← get
  match m.hart.fetch m.imem with
  | .ok w => execute (.decode w)
  | .error trap => throw trap

/-! ## Steps -/

/-- The reason why the next instruction must not be fetched, if there is one. -/
def stopReason? (m : Machine) : Option Halt :=
  if m.hart.halted then some .system
  else if m.maxCycles ≤ m.cycles then some .cycleBound
  else match m.imem.read m.hart.pc 4 with
    | .error _ => some (.pcOutOfRange m.hart.pc)
    | .ok n => if n = 0 then some .zeroWord else none

/-- Retires one instruction and counts it. -/
def step : InPlace Halt Unit := do
  match stopReason? (← get) with
  | some halt => throw halt
  | none =>
    ExceptT.adapt Trap.halt retire
    modify fun m => { m with cycles := (m.cycles + 1) % 2 ^ 64 }

/-- Steps are made until one of them stops. -/
inductive Loops : Machine → Machine → Halt → Prop where
  | stop {m m' : Machine} {halt : Halt} : step m = (.error halt, m') → Loops m m' halt
  | next {m m' m'' : Machine} {halt : Halt} :
    step m = (.ok (), m') → Loops m' m'' halt → Loops m m'' halt

/-! ## In place or by effects -/

/-- A machine after an effect. -/
def after (m : Machine) (e : Effect) : Machine :=
  { m with hart := (m.hart.apply m.dmem e).1, dmem := (m.hart.apply m.dmem e).2 }

/-- Where an effect leads in one go. -/
def settle (m : Machine) (e : Effect) : Except Trap Unit × Machine :=
  match e.access? with
  | some (address, width) =>
    if m.hart.config.outOfRange = .fault ∧ ¬ m.dmem.Holds address width then
      (.error (.bus ⟨m.hart.pc, address, width, address, m.dmem.size⟩), m)
    else (.ok (), after m e)
  | none => (.ok (), after m e)

variable (m : Machine) (d : Instruction) (op : Mnemonic)

theorem bind_apply {ε α β : Type} (x : InPlace ε α) (f : α → InPlace ε β) :
    (x >>= f) m =
      match x m with
      | (.ok a, m') => f a m'
      | (.error e, m') => (.error e, m') := by
  show (match x m with | (r, m') => ExceptT.bindCont f r m') = _
  obtain ⟨r, m'⟩ := x m
  cases r <;> rfl

theorem adapt_apply {ε ε' α : Type} (f : ε → ε') (x : InPlace ε α) :
    (ExceptT.adapt f x : InPlace ε' α) m =
      match x m with
      | (.ok a, m') => (.ok a, m')
      | (.error e, m') => (.error (f e), m') := by
  show (match x m with | (r, m') => (Except.mapError f r, m')) = _
  obtain ⟨r, m'⟩ := x m
  cases r <;> rfl

theorem refuse_apply (pc address : Word) (cause : AccessError) :
    refuse pc address cause m =
      if m.hart.config.outOfRange = .fault then (.error (.bus ⟨pc, address, cause⟩), m)
      else (.ok (), m) := by
  show (match m.hart.config.outOfRange with
    | .ignore => pure ()
    | .fault => throw (.bus ⟨pc, address, cause⟩) : InPlace Trap Unit) m = _
  cases m.hart.config.outOfRange <;> rfl

theorem load_eq_settle (target : Word) :
    (do load op d; jump target : InPlace Trap Unit) m =
      settle m (.load d.rd (loadKind op).1 (loadKind op).2 (m.hart.register d.rs1 + d.imm)
        target) := by
  have hload : load op d m =
      (match m.dmem.read (m.hart.register d.rs1 + d.imm) (loadKind op).1 with
        | .ok n => setRegister d.rd (extend (loadKind op).1 (loadKind op).2 n)
        | .error cause => refuse m.hart.pc (m.hart.register d.rs1 + d.imm) cause) m := rfl
  rw [bind_apply, hload, settle, Effect.access?, Memory.read, after, Hart.apply]
  by_cases hholds : m.dmem.Holds (m.hart.register d.rs1 + d.imm) (loadKind op).1
  · simp only [hholds, if_true, not_true_eq_false, and_false, if_false]
    rfl
  · simp only [hholds, if_false, not_false_eq_true, and_true, refuse_apply]
    split_ifs <;> rfl

theorem store_eq_settle (target : Word) :
    (do store op d; jump target : InPlace Trap Unit) m =
      settle m (.store (storeWidth op) (m.hart.register d.rs1 + d.imm) (m.hart.register d.rs2)
        target) := by
  have hstore : store op d m =
      (match m.dmem.write (m.hart.register d.rs1 + d.imm) (storeWidth op)
          (m.hart.register d.rs2).toNat with
        | .ok dmem => set { m with dmem }
        | .error cause => refuse m.hart.pc (m.hart.register d.rs1 + d.imm) cause) m := rfl
  rw [bind_apply, hstore, settle, Effect.access?, Memory.write, after, Hart.apply]
  by_cases hholds : m.dmem.Holds (m.hart.register d.rs1 + d.imm) (storeWidth op)
  · simp only [hholds, if_true, not_true_eq_false, and_false, if_false]
    rfl
  · simp only [hholds, if_false, not_false_eq_true, and_true, refuse_apply]
    split_ifs <;> rfl

theorem perform_eq_settle :
    perform op d m = settle m (d.effectOf op m.hart.config m.hart.pc (m.hart.register d.rs1)
      (m.hart.register d.rs2)) := by
  cases op
  case lb | lh | lw | lbu | lhu => exact load_eq_settle ..
  case sb | sh | sw => exact store_eq_settle ..
  all_goals rfl

theorem execute_eq_settle : execute d m = settle m (m.hart.effect d) := by
  show (match d.active? m.hart.config with
    | some op => perform op d
    | none => jump (m.hart.pc + 4) : InPlace Trap Unit) m = _
  rw [Hart.effect, Instruction.effect]
  cases d.active? m.hart.config with
  | none => rfl
  | some op => exact perform_eq_settle m d op

theorem settle_effect :
    settle m (m.hart.effect d) =
      match m.hart.fault? m.dmem d with
      | some fault => (.error (.bus fault), m)
      | none => (.ok (), after m (m.hart.effect d)) := by
  rw [settle, Hart.fault?]
  cases (m.hart.effect d).access? with
  | none => rfl
  | some access =>
    dsimp only
    split_ifs <;> rfl

/-- The two executors agree, and a trap leaves the machine as it was. -/
theorem execute_eq_execute :
    execute d m =
      match m.hart.execute m.dmem d with
      | .ok (hart, dmem) => (.ok (), { m with hart, dmem })
      | .error trap => (.error trap, m) := by
  rw [execute_eq_settle, settle_effect, Hart.execute]
  cases m.hart.fault? m.dmem d <;> rfl

/-! ## Steps in place -/

/-- What the stop reason leaves to the fetch: a word that is there and is not 0. -/
theorem stopReason?_eq (m : Machine) :
    stopReason? m =
      if Hart.haltThreshold ≤ m.hart.pc then some .system
      else if m.maxCycles ≤ m.cycles then some .cycleBound
      else if m.imem.size < m.hart.pc.toNat + 4 then some (.pcOutOfRange m.hart.pc)
      else if m.word = 0 then some .zeroWord
      else none := by
  simp only [stopReason?, Hart.halted, decide_eq_true_eq, m.word_eq_zero_iff]
  by_cases hin : m.hart.pc.toNat + 4 ≤ m.imem.size
  · have hread : m.imem.read m.hart.pc 4 = .ok (m.imem.get m.hart.pc 4) := if_pos hin
    rw [hread, if_neg (not_lt.2 hin)]
  · have hread : m.imem.read m.hart.pc 4 = .error ⟨4, m.hart.pc, m.imem.size⟩ := if_neg hin
    rw [hread, if_pos (not_le.1 hin)]

theorem fetches_of_stopReason?_eq_none (h : stopReason? m = none) : m.Fetches ∧ m.word ≠ 0 := by
  rw [stopReason?_eq] at h
  split_ifs at h with hhalted hbound hin hzero
  exact ⟨⟨BitVec.not_le.1 hhalted, not_le.1 hbound, not_lt.1 hin⟩, hzero⟩

theorem halt?_eq_stopReason? :
    m.halt? = (stopReason? m).or (m.fault?.map fun fault => .fault fault.pc fault.address) := by
  rw [Machine.halt?_eq, stopReason?_eq]
  split_ifs <;> rfl

theorem retire_eq (h : m.Fetches) :
    retire m =
      match m.fault? with
      | some fault => (.error (.bus fault), m)
      | none => (.ok (), after m (m.hart.effect m.instruction)) := by
  have hretire : retire m = (match m.hart.fetch m.imem with
      | .ok w => execute (.decode w)
      | .error trap => throw trap : InPlace Trap Unit) m := rfl
  rw [hretire, Machine.fetch_of_holds h.inside]
  exact (execute_eq_settle m _).trans (settle_effect m _)

theorem step_apply :
    step m =
      match stopReason? m with
      | some halt => (.error halt, m)
      | none =>
        match retire m with
        | (.ok (), m') => (.ok (), { m' with cycles := (m'.cycles + 1) % 2 ^ 64 })
        | (.error trap, m') => (.error trap.halt, m') := by
  have hstep : step m = (match stopReason? m with
      | some halt => throw halt
      | none => do
        ExceptT.adapt Trap.halt retire
        modify fun m => { m with cycles := (m.cycles + 1) % 2 ^ 64 } : InPlace Halt Unit) m := rfl
  rw [hstep]
  cases stopReason? m with
  | some halt => rfl
  | none =>
    simp only [bind_apply, adapt_apply]
    obtain ⟨_ | _, m'⟩ := retire m <;> rfl

/-- A step in place does what a step does, and a step that gives a halt does nothing. -/
theorem step_eq (h : m.maxCycles < 2 ^ 64) :
    step m =
      match m.step with
      | .ok m' => (.ok (), m')
      | .error halt => (.error halt, m) := by
  rw [step_apply, Machine.step, halt?_eq_stopReason?]
  cases hreason : stopReason? m with
  | some halt => rfl
  | none =>
    obtain ⟨hfetches, -⟩ := fetches_of_stopReason?_eq_none m hreason
    have hcycles : (m.cycles + 1) % 2 ^ 64 = m.cycles + 1 :=
      Nat.mod_eq_of_lt (lt_of_le_of_lt hfetches.bounded h)
    rw [retire_eq m hfetches]
    cases m.fault? with
    | some fault => rfl
    | none =>
      simp only [Option.none_or, Option.map_none]
      show (Except.ok (), { after m _ with cycles := (m.cycles + 1) % 2 ^ 64 }) = _
      rw [hcycles]
      rfl

variable {m} {m' final : Machine} {halt : Halt}

theorem step_eq_ok_iff (h : m.maxCycles < 2 ^ 64) :
    step m = (.ok (), m') ↔ m.step = .ok m' := by
  rw [step_eq m h]
  cases m.step with
  | ok =>
    constructor <;> intro heq <;> cases heq <;> rfl
  | error => exact ⟨nofun, nofun⟩

theorem step_eq_error_iff (h : m.maxCycles < 2 ^ 64) :
    step m = (.error halt, m') ↔ m.step = .error halt ∧ m = m' := by
  rw [step_eq m h]
  cases m.step with
  | ok => exact ⟨nofun, nofun⟩
  | error =>
    constructor
    · intro heq
      cases heq
      exact ⟨rfl, rfl⟩
    · rintro ⟨heq, rfl⟩
      cases heq
      rfl

/-- The loop ends, in one way only, and where the run ends. -/
theorem loops_iff (h : m.maxCycles < 2 ^ 64) : Loops m final halt ↔ m.run = (final, halt) := by
  constructor
  · intro hloops
    induction hloops with
    | stop hstep =>
      obtain ⟨herror, rfl⟩ := (step_eq_error_iff h).1 hstep
      exact Machine.run_of_halt?_eq_some
        ((Machine.halt?_eq_some_iff _ _).2 ((Machine.step_eq_error_iff _ _).1 herror))
    | next hstep _ ih =>
      obtain ⟨hhalt, rfl⟩ := (Machine.step_eq_ok_iff _ _).1 ((step_eq_ok_iff h).1 hstep)
      rw [Machine.run_of_halt?_eq_none hhalt]
      exact ih h
  · -- The recursion of a run is on the cycles that are left, and each step uses one up.
    intro hrun
    induction m using Machine.run.induct with
    | case1 m halt' hhalt =>
      rw [Machine.run_of_halt?_eq_some hhalt] at hrun
      obtain ⟨rfl, rfl⟩ := Prod.mk.inj hrun
      refine .stop ((step_eq_error_iff h).2 ⟨?_, rfl⟩)
      exact (Machine.step_eq_error_iff _ _).2 ((Machine.halt?_eq_some_iff _ _).1 hhalt)
    | case2 m hhalt ih =>
      rw [Machine.run_of_halt?_eq_none hhalt] at hrun
      exact .next ((step_eq_ok_iff h).2 ((Machine.step_eq_ok_iff _ _).2 ⟨hhalt, rfl⟩)) (ih h hrun)

/-- Fetching succeeds after the stop reason has been tested. -/
theorem retire_ne_fetch (h : stopReason? m = none) (pc : Word) (cause : AccessError) :
    (retire m).1 ≠ .error (.fetch pc cause) := by
  rw [retire_eq m (fetches_of_stopReason?_eq_none m h).1]
  cases m.fault? with
  | none => exact nofun
  | some fault =>
    intro heq
    cases Except.error.inj heq

/-- The loop of steps ends, counts without overflow, changes nothing in the step that stops it, and
gives the halt that describes the final machine. -/
theorem loop_wellBehaved (m : Machine) (hbound : m.maxCycles < 2 ^ 64) :
    (∀ final halt, Loops m final halt ↔ m.run = (final, halt)) ∧
      (∀ m', step m = (.ok (), m') → m'.cycles = m.cycles + 1 ∧ m'.cycles ≤ m.maxCycles) ∧
      m.run.1.cycles ≤ max m.cycles m.maxCycles ∧
      (∀ halt m', step m = (.error halt, m') → m' = m) ∧
      (∀ final halt, Loops m.run.1 final halt →
        RunResult.of (final, halt) = RunResult.of m.run) ∧
      (∀ halt, m.run.2 = halt ↔ halt.Describes m.run.1) ∧
      ∀ pc cause, stopReason? m = none → (retire m).1 ≠ .error (.fetch pc cause) := by
  obtain ⟨k, hreaches, -⟩ := m.exists_reaches_run
  have hbound' : m.run.1.maxCycles < 2 ^ 64 := hreaches.maxCycles_eq ▸ hbound
  refine ⟨?_, ?_, hreaches.cycles_le, ?_, ?_, m.run_snd_eq_iff, ?_⟩
  · intro final halt
    exact loops_iff hbound
  · intro m' hstep
    exact Machine.cycles_of_step ((step_eq_ok_iff hbound).1 hstep)
  · intro halt m' hstep
    exact ((step_eq_error_iff hbound).1 hstep).2.symm
  · intro final halt hloops
    rw [← (loops_iff hbound').1 hloops, ← Machine.run_eq_of_reaches hreaches]
  · intro pc cause h
    exact retire_ne_fetch h pc cause

/-- A store outside the data memory stops the loop at once. -/
theorem loop_wellBehaved_store :
    let m := (Machine.reset { imemSize := 4, hart := { outOfRange := .fault } }).load
      [0x06, 0x00, 0x22, 0x23] []
    m.maxCycles < 2 ^ 64 ∧ Loops m m (.fault 0 100) := by
  intro m
  have hbound : m.maxCycles < 2 ^ 64 := by decide
  exact ⟨hbound, ((loop_wellBehaved m hbound).1 m (.fault 0 100)).2
    (Machine.run_of_halt?_eq_some (by decide))⟩

end InPlace

end RefHart
