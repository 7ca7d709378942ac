import RefHart.Hart.Execution

/-!
# Machines

A hart with its instruction memory, its data memory and a count of retired instructions.

**Halting.** Whether a machine goes on is settled before anything is changed. The reasons to stop
are tested in this order: the program counter has reached the halted addresses, the bound on the
number of cycles is reached, there is no instruction word at the program counter, the word is 0, the
instruction would fault. If none holds, one instruction retires.
-/

namespace RefHart

/-- The settings of a simulation. -/
structure MachineConfig where
  maxCycles : Nat := 10000
  /-- The size of the instruction memory in bytes. -/
  imemSize : Nat := 256
  /-- The size of the data memory in bytes. -/
  dmemSize : Nat := 32
  hart : HartConfig := {}
  deriving DecidableEq, Repr

/-- Why a machine stops. -/
inductive Halt where
  /-- The program counter has reached the halted addresses. -/
  | system
  /-- The next instruction word is 0. -/
  | zeroWord
  /-- The program counter has left the instruction memory. -/
  | pcOutOfRange (pc : Word)
  /-- The bound on the number of cycles is reached. -/
  | cycleBound
  /-- The next instruction accesses an address outside the data memory. -/
  | fault (pc address : Word)
  deriving DecidableEq, Repr

/-- The state of a simulation. -/
structure Machine where
  hart : Hart
  /-- The instruction memory. -/
  imem : Memory
  /-- The data memory. -/
  dmem : Memory
  /-- The number of retired instructions. -/
  cycles : Nat
  maxCycles : Nat
  deriving DecidableEq, Repr

namespace Machine

/-- A machine after reset, with memories that hold zeros. -/
def reset (config : MachineConfig) : Machine where
  hart := .reset config.hart
  imem := .zeros config.imemSize .big
  dmem := .zeros config.dmemSize .little
  cycles := 0
  maxCycles := config.maxCycles

/-- A machine after reset, if there are memories of the configured sizes. -/
def fresh? (config : MachineConfig) : Option Machine := do
  let imem ← Memory.zeros? config.imemSize .big
  let dmem ← Memory.zeros? config.dmemSize .little
  return { hart := .reset config.hart, imem, dmem, cycles := 0, maxCycles := config.maxCycles }

/-- Copies images to the start of the memories; what does not fit is dropped. -/
def load (m : Machine) (code data : List Byte) : Machine :=
  { m with imem := m.imem.load code, dmem := m.dmem.load data }

/-- The word at the program counter. -/
def word (m : Machine) : Word := BitVec.ofNat 32 (m.imem.get m.hart.pc 4)

/-- The instruction at the program counter. -/
def instruction (m : Machine) : Instruction := .decode m.word

/-- The fault that the next instruction would meet. -/
def fault? (m : Machine) : Option BusFault := m.hart.fault? m.dmem m.instruction

/-- The reason why no further instruction retires, if there is one. -/
def halt? (m : Machine) : Option Halt :=
  if m.hart.halted then some .system
  else if m.maxCycles ≤ m.cycles then some .cycleBound
  else if ¬ m.imem.Holds m.hart.pc 4 then some (.pcOutOfRange m.hart.pc)
  else if m.word = 0 then some .zeroWord
  else m.fault?.map fun fault => .fault fault.pc fault.address

/-- Retires the instruction at the program counter. -/
def retire (m : Machine) : Machine :=
  let effect := m.hart.effect m.instruction
  match m with
  | ⟨hart, imem, dmem, cycles, maxCycles⟩ =>
    let (hart, dmem) := hart.apply dmem effect
    ⟨hart, imem, dmem, cycles + 1, maxCycles⟩

/-- Retires one instruction, or says why none retires. -/
def step (m : Machine) : Except Halt Machine :=
  match m.halt? with
  | some halt => .error halt
  | none => .ok m.retire

end Machine

end RefHart
