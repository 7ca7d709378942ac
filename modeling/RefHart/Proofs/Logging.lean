import Mathlib
import RefHart.Proofs.InPlace

/-!
# Logging

The loop of steps with its log, as a program writes it: before a step, the instruction is fetched
and decoded a second time, only to be announced; an event is dropped if its level is not enabled. So
what announces an instruction is not what executes it, and it comes first.

* `step_eq` — a step with its log is a step in place, and adds the log of that step.
* `exists_announced` — the log of a run is a row of announcements, one for each step, and what the
  machine in which the run ends leaves behind.

**Theorem (`loop_tells_run`).** Whatever levels are enabled, the loop ends where the run ends, with
the enabled part of one log. This log is the execution: the instructions that retired, in order, each
with its cycle and its place; then, after a fault only, the instruction that did not retire and its
fault; last, where the run ended. As for the loop without a log, the cycle bound is a number of 64
bits.
-/

namespace RefHart

/-- An event announces, for a cycle, the instruction at the program counter of a machine: the word that
is fetched there, with its disassembly. -/
def Event.Announces (event : Event) (cycle : Nat) (m : Machine) : Prop :=
  ∃ w, m.hart.fetch m.imem = .ok w ∧
    (m.imem.order = .big → w = Word.ofBigBytes
      [m.imem.byte m.hart.pc.toNat, m.imem.byte (m.hart.pc.toNat + 1),
        m.imem.byte (m.hart.pc.toNat + 2), m.imem.byte (m.hart.pc.toNat + 3)]) ∧
    event = .retire cycle m.hart.pc w (Instruction.decode w).text

/-! ## The log of a run -/

namespace Machine

variable {m : Machine}

theorem announces_retireEvent (h : m.Fetches) : m.retireEvent.Announces m.cycles m := by
  refine ⟨m.word, fetch_of_holds h.inside, ?_, rfl⟩
  intro horder
  rw [word, Memory.get_four h.inside, horder]
  rfl

theorem stepLog_of_halt?_eq_none (h : m.halt? = none) : m.stepLog = [m.retireEvent] := by
  rw [stepLog, h]

/-- An instruction that faults is announced as well, and the fault follows. -/
theorem stepLog_of_fault {pc address : Word} (h : m.halt? = some (.fault pc address)) :
    ∃ cause, m.fault? = some ⟨pc, address, cause⟩ ∧
      m.stepLog = [m.retireEvent, Event.accessFault ⟨pc, address, cause⟩] := by
  obtain ⟨hfetches, hword, -⟩ := describes_of_halt?_eq_some h
  have hmap := halt?_of_fetches hfetches
  rw [if_neg hword, h] at hmap
  obtain ⟨⟨pc', address', cause⟩, hfault, heq⟩ := Option.map_eq_some_iff.1 hmap.symm
  obtain ⟨rfl, rfl⟩ := Halt.fault.inj heq
  refine ⟨cause, hfault, ?_⟩
  rw [stepLog, h, hfault]
  rfl

theorem stepLog_of_not_fault {halt : Halt} (h : m.halt? = some halt)
    (hne : ∀ pc address, halt ≠ .fault pc address) : m.stepLog = [] := by
  rw [stepLog, h]
  cases halt with
  | fault pc address => exact absurd rfl (hne pc address)
  | system | zeroWord | pcOutOfRange | cycleBound => rfl

theorem runLog_of_halt?_eq_some {halt : Halt} (h : m.halt? = some halt) :
    m.runLog = m.stepLog ++ [Event.finished m.cycles m.hart.pc halt] := by
  rw [runLog.eq_def]
  split
  · rename_i heq
    rw [Option.some.inj (heq.symm.trans h)]
  · rename_i heq
    rw [h] at heq
    contradiction

theorem runLog_of_halt?_eq_none (h : m.halt? = none) :
    m.runLog = m.stepLog ++ m.retire.runLog := by
  rw [runLog.eq_def]
  split
  · rename_i heq
    rw [h] at heq
    contradiction
  · rfl

/-- Each step of a run is announced, in order, before the last machine is logged. -/
theorem exists_announced (m : Machine) :
    ∃ (k : Nat) (announced : List Event), Reaches m k m.run.1 ∧ m.run.1.halt? = some m.run.2 ∧
      announced.length = k ∧
      (∀ j < k, ∃ m' event, Reaches m j m' ∧ announced[j]? = some event ∧
        event.Announces (m.cycles + j) m') ∧
      m.runLog = announced ++ m.run.1.stepLog ++
        [Event.finished m.run.1.cycles m.run.1.hart.pc m.run.2] := by
  induction m using run.induct with
  | case1 m halt h =>
    rw [run_of_halt?_eq_some h, runLog_of_halt?_eq_some h]
    exact ⟨0, [], .refl, h, rfl, fun j hj => absurd hj (Nat.not_lt_zero j), rfl⟩
  | case2 m h ih =>
    -- The step from `m` stands in front of the steps from the next machine.
    obtain ⟨k, announced, hreaches, hhalt, hlength, hannounced, hlog⟩ := ih
    have hstep : m.step = .ok m.retire := (step_eq_ok_iff m _).2 ⟨h, rfl⟩
    rw [run_of_halt?_eq_none h]
    refine ⟨k + 1, m.retireEvent :: announced, hreaches.head hstep, hhalt, ?_, ?_, ?_⟩
    · rw [List.length_cons, hlength]
    · intro j hj
      cases j with
      | zero =>
        exact ⟨m, m.retireEvent, .refl, rfl, announces_retireEvent (fetches_of_halt?_eq_none h)⟩
      | succ j =>
        obtain ⟨m', event, hreaches', hget, hevent⟩ := hannounced j (Nat.lt_of_succ_lt_succ hj)
        rw [cycles_retire, Nat.add_right_comm, Nat.add_assoc] at hevent
        exact ⟨m', event, hreaches'.head hstep, hget, hevent⟩
    · rw [runLog_of_halt?_eq_none h, stepLog_of_halt?_eq_none h, hlog]
      rfl

end Machine

/-! ## The loop with its log -/

namespace Logged

variable (enabled : Level → Bool)

/-- What an event adds to the log. -/
def emit (event : Event) : List Event := if enabled event.level then [event] else []

/-- Fetches and decodes the next instruction in order to announce it. -/
def announce (m : Machine) : List Event :=
  if enabled .trace then
    match m.hart.fetch m.imem with
    | .ok w => emit enabled (.retire m.cycles m.hart.pc w (Instruction.decode w).text)
    | .error _ => []
  else []

/-- Retires one instruction and counts it, and says what that adds to the log. -/
def step (m : Machine) : (Except Halt Unit × Machine) × List Event :=
  match InPlace.stopReason? m with
  | some halt => ((.error halt, m), [])
  | none =>
    let announced := announce enabled m
    match InPlace.retire m with
    | (.ok (), m') => ((.ok (), { m' with cycles := (m'.cycles + 1) % 2 ^ 64 }), announced)
    | (.error (.bus fault), m') =>
      ((.error (.fault fault.pc fault.address), m'),
        announced ++ emit enabled (.accessFault fault))
    | (.error (.fetch pc _), m') => ((.error (.pcOutOfRange pc), m'), announced)

/-- Steps are made until one of them stops, with the log of all of them. -/
inductive Loops : Machine → Machine → Halt → List Event → Prop where
  | stop {m m' : Machine} {halt : Halt} {log : List Event} :
    step enabled m = ((.error halt, m'), log) →
      Loops m m' halt (log ++ emit enabled (.finished m'.cycles m'.hart.pc halt))
  | next {m m' m'' : Machine} {halt : Halt} {log log' : List Event} :
    step enabled m = ((.ok (), m'), log) → Loops m' m'' halt log' → Loops m m'' halt (log ++ log')

/-- The events that are kept under the enabled levels. -/
def kept (events : List Event) : List Event := events.filter fun event => enabled event.level

@[simp] theorem kept_append (events events' : List Event) :
    kept enabled (events ++ events') = kept enabled events ++ kept enabled events' :=
  List.filter_append ..

@[simp] theorem kept_singleton (event : Event) : kept enabled [event] = emit enabled event :=
  List.filter_cons

/-- The second fetch finds what the first one finds. -/
theorem announce_eq {m : Machine} (h : m.Fetches) :
    announce enabled m = emit enabled m.retireEvent := by
  have hannounce : announce enabled m =
      if enabled .trace then emit enabled m.retireEvent else [] := by
    rw [announce, Machine.fetch_of_holds h.inside]
    rfl
  rw [hannounce]
  split_ifs with htrace
  · rfl
  · exact (if_neg htrace).symm

theorem stepLog_of_stopReason? {m : Machine} {halt : Halt} (h : InPlace.stopReason? m = some halt) :
    m.stepLog = [] := by
  have hhalt : m.halt? = some halt := by rw [InPlace.halt?_eq_stopReason?, h, Option.some_or]
  refine Machine.stepLog_of_not_fault hhalt ?_
  rintro pc address rfl
  rw [InPlace.stopReason?_eq] at h
  split_ifs at h <;> cases Option.some.inj h

/-- A step with its log does what a step does without. -/
theorem fst_step (m : Machine) : (step enabled m).1 = InPlace.step m := by
  rw [InPlace.step_apply, step]
  cases InPlace.stopReason? m with
  | some halt => rfl
  | none => obtain ⟨⟨⟨⟩⟩ | _, m'⟩ := InPlace.retire m <;> rfl

/-- A step adds its log, as far as it is enabled. -/
theorem snd_step (m : Machine) : (step enabled m).2 = kept enabled m.stepLog := by
  rw [step]
  cases hreason : InPlace.stopReason? m with
  | some halt => rw [stepLog_of_stopReason? hreason]; rfl
  | none =>
    obtain ⟨hfetches, -⟩ := InPlace.fetches_of_stopReason?_eq_none m hreason
    have hhalt := InPlace.halt?_eq_stopReason? m
    rw [hreason, Option.none_or] at hhalt
    simp only [InPlace.retire_eq m hfetches, announce_eq enabled hfetches]
    cases hfault : m.fault? with
    | none =>
      rw [hfault] at hhalt
      rw [Machine.stepLog_of_halt?_eq_none hhalt, kept_singleton]
    | some fault =>
      rw [hfault] at hhalt
      obtain ⟨cause, hfault', hlog⟩ := Machine.stepLog_of_fault hhalt
      rw [hfault] at hfault'
      rw [hlog, ← Option.some.inj hfault', ← List.singleton_append, kept_append, kept_singleton,
        kept_singleton]

theorem step_eq (m : Machine) : step enabled m = (InPlace.step m, kept enabled m.stepLog) :=
  Prod.ext (fst_step enabled m) (snd_step enabled m)

variable {enabled} {m m' final : Machine} {halt : Halt} {log : List Event}

theorem step_eq_ok_iff (hbound : m.maxCycles < 2 ^ 64) :
    step enabled m = ((.ok (), m'), log) ↔
      m.halt? = none ∧ m.retire = m' ∧ kept enabled m.stepLog = log := by
  rw [step_eq, Prod.mk.injEq, InPlace.step_eq_ok_iff hbound, Machine.step_eq_ok_iff, and_assoc]

theorem step_eq_error_iff (hbound : m.maxCycles < 2 ^ 64) :
    step enabled m = ((.error halt, m'), log) ↔
      m.halt? = some halt ∧ m = m' ∧ kept enabled m.stepLog = log := by
  rw [step_eq, Prod.mk.injEq, InPlace.step_eq_error_iff hbound, Machine.step_eq_error_iff,
    ← Machine.halt?_eq_some_iff, and_assoc]

/-- The loop ends where the run ends, with the log of the run as far as it is enabled. -/
theorem loops_iff (hbound : m.maxCycles < 2 ^ 64) :
    Loops enabled m final halt log ↔ m.run = (final, halt) ∧ log = kept enabled m.runLog := by
  constructor
  · intro hloops
    induction hloops with
    | stop hstep =>
      obtain ⟨hhalt, rfl, rfl⟩ := (step_eq_error_iff hbound).1 hstep
      rw [Machine.runLog_of_halt?_eq_some hhalt, kept_append, kept_singleton]
      exact ⟨Machine.run_of_halt?_eq_some hhalt, rfl⟩
    | next hstep _ ih =>
      obtain ⟨hhalt, rfl, rfl⟩ := (step_eq_ok_iff hbound).1 hstep
      obtain ⟨hrun, rfl⟩ := ih hbound
      rw [Machine.runLog_of_halt?_eq_none hhalt, kept_append]
      exact ⟨(Machine.run_of_halt?_eq_none hhalt).trans hrun, rfl⟩
  · rintro ⟨hrun, rfl⟩
    induction m using Machine.run.induct with
    | case1 m halt' hhalt =>
      rw [Machine.run_of_halt?_eq_some hhalt] at hrun
      obtain ⟨rfl, rfl⟩ := Prod.mk.inj hrun
      rw [Machine.runLog_of_halt?_eq_some hhalt, kept_append, kept_singleton]
      exact .stop ((step_eq_error_iff hbound).2 ⟨hhalt, rfl, rfl⟩)
    | case2 m hhalt ih =>
      rw [Machine.run_of_halt?_eq_none hhalt] at hrun
      rw [Machine.runLog_of_halt?_eq_none hhalt, kept_append]
      exact .next ((step_eq_ok_iff hbound).2 ⟨hhalt, rfl, rfl⟩) (ih hbound hrun)

/-- What is logged depends on the levels, where the loop ends does not. The whole log is the row of
instructions that retired, then an instruction that faults and its fault, then the end. -/
theorem loop_tells_run (m : Machine) (hbound : m.maxCycles < 2 ^ 64) :
    (∀ enabled final halt log, Loops enabled m final halt log ↔
      m.run = (final, halt) ∧ log = kept enabled m.runLog) ∧
    ∃ (k : Nat) (announced tail : List Event),
      m.runLog = announced ++ tail ++ [Event.finished m.run.1.cycles m.run.1.hart.pc m.run.2] ∧
      Machine.Reaches m k m.run.1 ∧ m.run.1.cycles = m.cycles + k ∧ announced.length = k ∧
      (∀ j < k, ∃ m' event, Machine.Reaches m j m' ∧ announced[j]? = some event ∧
        event.Announces (m.cycles + j) m') ∧
      (∀ pc address, m.run.2 = .fault pc address →
        pc = m.run.1.hart.pc ∧ ∃ event cause,
          tail = [event, Event.accessFault ⟨pc, address, cause⟩] ∧
          event.Announces (m.cycles + k) m.run.1 ∧
          m.run.1.fault? = some ⟨pc, address, cause⟩) ∧
      ((∀ pc address, m.run.2 ≠ .fault pc address) → tail = []) := by
  obtain ⟨k, announced, hreaches, hhalt, hlength, hannounced, hlog⟩ := m.exists_announced
  have hcycles := hreaches.cycles_eq
  refine ⟨fun _ _ _ _ => loops_iff hbound, k, announced, m.run.1.stepLog, hlog, hreaches, hcycles,
    hlength, hannounced, ?_, Machine.stepLog_of_not_fault hhalt⟩
  intro pc address hfault
  rw [hfault] at hhalt
  obtain ⟨hfetches, -, hpc, -⟩ := Machine.describes_of_halt?_eq_some hhalt
  obtain ⟨cause, hsome, htail⟩ := Machine.stepLog_of_fault hhalt
  have hevent := Machine.announces_retireEvent hfetches
  rw [hcycles] at hevent
  exact ⟨hpc, m.run.1.retireEvent, cause, htail, hevent, hsome⟩

/-- An instruction that retires, and a store outside the data memory. -/
theorem loop_tells_run_store :
    let m := (Machine.reset { imemSize := 8, hart := { outOfRange := .fault } }).load
      [0x00, 0x10, 0x00, 0x93, 0x06, 0x00, 0x22, 0x23] []
    m.maxCycles < 2 ^ 64 ∧
      Loops (fun _ => true) m m.retire (.fault 4 100)
        [.retire 0 0 0x00100093 "addi x1, x0, 1", .retire 1 4 0x06002223 "sw x0, 100(x0)",
          .accessFault ⟨4, 100, 4, 100, 32⟩, .finished 1 4 (.fault 4 100)] := by
  intro m
  have hbound : m.maxCycles < 2 ^ 64 := by decide
  have hhalt : m.halt? = none := by decide +kernel
  have hfault : m.retire.halt? = some (.fault 4 100) := by decide +kernel
  refine ⟨hbound, ((loop_tells_run m hbound).1 _ _ _ _).2 ⟨?_, ?_⟩⟩
  · rw [Machine.run_of_halt?_eq_none hhalt, Machine.run_of_halt?_eq_some hfault]
  · rw [Machine.runLog_of_halt?_eq_none hhalt, Machine.runLog_of_halt?_eq_some hfault]
    decide +kernel

end Logged

end RefHart
