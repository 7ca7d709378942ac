import RefHart.Hart.Alu
import RefHart.Hart.Basic
import RefHart.Isa.Instruction
import RefHart.Memory

/-!
# Executing an instruction

**Effects.** What an instruction does is first worked out as an `Effect`, from the switches, the
program counter and the values of the two source registers alone. Applying the effect then changes
the hart and the data memory. So an instruction reads nothing else and changes nothing else.

**Faults** are found before anything is changed: an access outside the data memory is a trap under
the policy `fault`, and under the policy `ignore` it reads and writes nothing.
-/

namespace RefHart

/-! ## Effects -/

/-- What an instruction does to a hart and its data memory. -/
inductive Effect where
  /-- Only the program counter changes. -/
  | jump (target : Word)
  /-- A register receives a value. -/
  | write (rd : Nat) (v target : Word)
  /-- A register receives a number of `width` bytes from memory, sign-extended or not. -/
  | load (rd : Nat) (width : Nat) (signed : Bool) (address target : Word)
  /-- The lowest `width` bytes of a value go to memory. -/
  | store (width : Nat) (address v target : Word)
  deriving DecidableEq, Repr

/-- The width in bytes and the signedness of a load. -/
def loadKind : Mnemonic → Nat × Bool
  | .lb => (1, true)
  | .lbu => (1, false)
  | .lh => (2, true)
  | .lhu => (2, false)
  | _ => (4, false)

/-- The width of a store in bytes. -/
def storeWidth : Mnemonic → Nat
  | .sb => 1
  | .sh => 2
  | _ => 4

/-- The flag under which a system instruction stops the run. -/
def haltFlag : Mnemonic → HaltOn
  | .ecall => .ecall
  | .ebreak => .ebreak
  | _ => .csr

namespace Instruction

/-- What is executed: nothing for an unclaimed word, nor for a multiplication or division on a hart
without that extension. -/
def active? (d : Instruction) (config : HartConfig) : Option Mnemonic :=
  d.op.filter fun op => config.mulDiv || !op.isMulDiv

/-- The effect of executing `op` at `pc` with the source register values `a` and `b`. -/
def effectOf (d : Instruction) (op : Mnemonic) (config : HartConfig) (pc a b : Word) : Effect :=
  let next := pc + 4
  let result (v? : Option Word) : Effect :=
    match v? with
    | some v => .write d.rd v next
    | none => .jump next
  match op.description.opcode with
  | .op => result (Alu.register? op a b)
  | .opImm => result (Alu.immediate? op a d.imm)
  | .load => .load d.rd (loadKind op).1 (loadKind op).2 (a + d.imm) next
  | .store => .store (storeWidth op) (a + d.imm) b next
  | .branch => .jump (if Alu.branchTaken op a b then pc + d.imm else next)
  | .lui => .write d.rd d.imm next
  | .auipc => .write d.rd (pc + d.imm) next
  | .jal => .write d.rd next (pc + d.imm)
  | .jalr => .write d.rd next ((a + d.imm) &&& ~~~1)
  | .system => .jump (if config.haltOn.contains (haltFlag op) then Hart.haltPc else next)

/-- The effect of an instruction at `pc` with the source register values `a` and `b`. -/
def effect (d : Instruction) (config : HartConfig) (pc a b : Word) : Effect :=
  match d.active? config with
  | some op => d.effectOf op config pc a b
  | none => .jump (pc + 4)

end Instruction

/-! ## Traps -/

/-- A load or store outside the data memory that stops the run. -/
structure BusFault where
  /-- The address of the instruction. -/
  pc : Word
  /-- The address of the access. -/
  address : Word
  cause : AccessError
  deriving DecidableEq, Repr

/-- Why an instruction cannot be executed. -/
inductive Trap where
  /-- There is no instruction at the program counter. -/
  | fetch (pc : Word) (cause : AccessError)
  | bus (fault : BusFault)
  deriving DecidableEq, Repr

/-- The wording of a trap. -/
def Trap.message : Trap → Text
  | fetch pc cause =>
    "Instruction fetch failed at " ++ Numeral.markedHex 8 pc.toNat ++ ": " ++ cause.message
  | bus fault =>
    "Bus error at " ++ Numeral.markedHex 8 fault.address.toNat ++ " (pc " ++
      Numeral.markedHex 8 fault.pc.toNat ++ "): " ++ fault.cause.message

/-- The memory access of an effect: its address and its width. -/
def Effect.access? : Effect → Option (Word × Nat)
  | load _ width _ address _ => some (address, width)
  | store width address _ _ => some (address, width)
  | _ => none

/-- A number of `width` bytes as a word. -/
def extend (width : Nat) (signed : Bool) (n : Nat) : Word :=
  if signed then Word.extendSign (BitVec.ofNat 32 n) (8 * width) else BitVec.ofNat 32 n

namespace Hart

/-- The effect that an instruction has on this hart. -/
def effect (h : Hart) (d : Instruction) : Effect :=
  d.effect h.config h.pc (h.register d.rs1) (h.register d.rs2)

/-- The fault that an instruction meets, if it meets one. -/
def fault? (h : Hart) (memory : Memory) (d : Instruction) : Option BusFault :=
  match (h.effect d).access? with
  | some (address, width) =>
    if h.config.outOfRange = .fault ∧ ¬ memory.Holds address width then
      some ⟨h.pc, address, width, address, memory.size⟩
    else none
  | none => none

/-- Carries out an effect. An access outside the memory reads and writes nothing. -/
def apply (h : Hart) (memory : Memory) : Effect → Hart × Memory
  | .jump target => ({ h with pc := target }, memory)
  | .write rd v target => ({ h.setRegister rd v with pc := target }, memory)
  | .load rd width signed address target =>
    if memory.Holds address width then
      ({ h.setRegister rd (extend width signed (memory.get address width)) with pc := target },
        memory)
    else ({ h with pc := target }, memory)
  | .store width address v target =>
    if memory.Holds address width then
      ({ h with pc := target }, memory.set address width v.toNat)
    else ({ h with pc := target }, memory)

/-- Executes an instruction, or says which trap it raises. -/
def execute (h : Hart) (memory : Memory) (d : Instruction) : Except Trap (Hart × Memory) :=
  match h.fault? memory d with
  | some fault => .error (.bus fault)
  | none => .ok (h.apply memory (h.effect d))

/-- The instruction word at the program counter. -/
def fetch (h : Hart) (program : Memory) : Except Trap Word :=
  match program.read h.pc 4 with
  | .ok n => .ok (BitVec.ofNat 32 n)
  | .error cause => .error (.fetch h.pc cause)

/-- Fetches an instruction and executes it. -/
def step (h : Hart) (program memory : Memory) : Except Trap (Hart × Memory) := do
  let w ← h.fetch program
  h.execute memory (Instruction.decode w)

end Hart

end RefHart
