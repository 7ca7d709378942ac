import RefHart.Assembly.Program
import RefHart.Isa.Disassembly
import RefHart.Machine.Basic

/-!
# Runs

A run retires instructions until the machine halts. It ends because every retired instruction takes
the machine one cycle nearer to its bound.

The log of a run is a function of the machine as well, beside the run and not part of it: one event
for each instruction that is about to be executed, one for a fault, one at the end.
-/

namespace RefHart

/-! ## Running to the end -/

namespace Machine

theorem cycles_lt_of_halt?_eq_none {m : Machine} (h : m.halt? = none) : m.cycles < m.maxCycles := by
  unfold halt? at h
  split at h
  · contradiction
  · split at h
    · contradiction
    · omega

@[simp] theorem cycles_retire (m : Machine) : m.retire.cycles = m.cycles + 1 := rfl

@[simp] theorem maxCycles_retire (m : Machine) : m.retire.maxCycles = m.maxCycles := rfl

/-- The machine in which the run from `m` ends, with the reason why it ends. -/
def run (m : Machine) : Machine × Halt :=
  match _h : m.halt? with
  | some halt => (m, halt)
  | none => run m.retire
termination_by m.maxCycles - m.cycles
decreasing_by
  have := cycles_lt_of_halt?_eq_none ‹m.halt? = none›
  simp only [cycles_retire, maxCycles_retire]
  omega

end Machine

/-- What a run leaves behind. -/
structure RunResult where
  registers : Vector Word 32
  dmem : Array Byte
  cycles : Nat
  pc : Word
  halt : Halt
  deriving DecidableEq, Repr

/-- The result of ending a run in a machine for a reason. -/
def RunResult.of (final : Machine × Halt) : RunResult where
  registers := final.1.hart.registers
  dmem := final.1.dmem.bytes
  cycles := final.1.cycles
  pc := final.1.hart.pc
  halt := final.2

/-- The result of the run of a fresh machine that is loaded with two images. -/
def MachineConfig.simulate (config : MachineConfig) (code data : List Byte) : RunResult :=
  .of (((Machine.reset config).load code data).run)

/-- The result of the run of a fresh machine that is loaded with two images; none if there is no
machine with these settings. -/
def MachineConfig.simulate? (config : MachineConfig) (code data : List Byte) : Option RunResult :=
  (Machine.fresh? config).map fun fresh => .of ((fresh.load code data).run)

/-- The result of a run with the given bound and memories of the default sizes. -/
def simulate (code data : List Byte) (maxCycles : Nat) : RunResult :=
  MachineConfig.simulate { maxCycles } code data

/-! ## The log -/

/-- One entry of the log. -/
inductive Event where
  | labelRedefined (redefinition : Redefinition)
  /-- The labels are complete: how many there are, and how many slots. -/
  | labelsResolved (labels slots : Nat)
  /-- The end of the instruction image does not fit. -/
  | codeTruncated (lost capacity : Nat)
  /-- The end of the data image does not fit. -/
  | dataTruncated (lost capacity : Nat)
  /-- An instruction is about to be executed. -/
  | retire (cycle : Nat) (pc raw : Word) (text : Text)
  | accessFault (fault : BusFault)
  | finished (cycles : Nat) (pc : Word) (halt : Halt)
  deriving DecidableEq, Repr

/-- The importance of an event. -/
inductive Level where
  | warn | debug | trace
  deriving DecidableEq, Repr

/-- The word for a level. -/
def Level.text : Level → Text
  | warn => "WARN"
  | debug => "DEBUG"
  | trace => "TRACE"

namespace Event

/-- The importance of an event. -/
def level : Event → Level
  | labelRedefined _ | codeTruncated _ _ | dataTruncated _ _ => .warn
  | labelsResolved _ _ | accessFault _ | finished _ _ _ => .debug
  | retire _ _ _ _ => .trace

/-- The headline of an event. -/
def message : Event → Text
  | labelRedefined _ => "label redefined"
  | labelsResolved _ _ => "labels resolved"
  | codeTruncated _ _ => "instruction image truncated"
  | dataTruncated _ _ => "data image truncated"
  | retire _ _ _ _ => "retire"
  | accessFault _ => "data access fault"
  | finished _ _ _ => "simulation finished"

end Event

/-- The log of assembling a source. -/
def Program.log (p : Program) : List Event :=
  p.redefinitions.map .labelRedefined ++ [.labelsResolved p.labels.size p.lines.length]

namespace Machine

/-- The log of loading two images. -/
def loadLog (m : Machine) (code data : List Byte) : List Event :=
  let lostCode := m.imem.lost code
  let lostData := m.dmem.lost data
  (if lostCode = 0 then [] else [.codeTruncated lostCode m.imem.size]) ++
    if lostData = 0 then [] else [.dataTruncated lostData m.dmem.size]

/-- The event for the instruction at the program counter. -/
def retireEvent (m : Machine) : Event :=
  .retire m.cycles m.hart.pc m.word m.instruction.text

/-- The log of the instruction at the program counter: nothing if it is not reached. -/
def stepLog (m : Machine) : List Event :=
  match m.halt? with
  | none => [m.retireEvent]
  | some (.fault _ _) => m.retireEvent :: m.fault?.toList.map .accessFault
  | some _ => []

/-- The log of the run from `m`. -/
def runLog (m : Machine) : List Event :=
  match _h : m.halt? with
  | some halt => m.stepLog ++ [.finished m.cycles m.hart.pc halt]
  | none => m.stepLog ++ runLog m.retire
termination_by m.maxCycles - m.cycles
decreasing_by
  have := cycles_lt_of_halt?_eq_none ‹m.halt? = none›
  simp only [cycles_retire, maxCycles_retire]
  omega

end Machine

/-! ## Wording -/

/-- The text for the reason of a halt. -/
def Halt.text : Halt → Text
  | system => "System"
  | zeroWord => "ZeroWord"
  | pcOutOfRange pc => "PcOutOfRange \x7b pc: " ++ Numeral.decimal pc.toNat ++ " \x7d"
  | cycleBound => "CycleBound"
  | fault pc address =>
    "Fault \x7b pc: " ++ Numeral.decimal pc.toNat ++ ", addr: " ++ Numeral.decimal address.toNat ++
      " \x7d"

end RefHart
