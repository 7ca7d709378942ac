import RefHart.Hart.HaltOn

/-!
# Harts

The state of a hart: its program counter, its 32 registers, and the switches that it runs under.
-/

namespace RefHart

/-- What happens to an access outside the data memory. -/
inductive OutOfRange where
  /-- Nothing is read or written, and the run goes on. -/
  | ignore
  /-- The run stops. -/
  | fault
  deriving DecidableEq, Repr

/-- The switches of a hart. -/
structure HartConfig where
  /-- Whether the multiply/divide extension is present. -/
  mulDiv : Bool := true
  haltOn : HaltOn := .all
  outOfRange : OutOfRange := .ignore
  deriving DecidableEq, Repr

/-- The state of a hart. -/
structure Hart where
  pc : Word
  registers : Vector Word 32
  config : HartConfig
  deriving DecidableEq, Repr

namespace Hart

/-- The address to which halting system instructions jump. -/
def haltPc : Word := 0xFFFFFFFF

/-- The first address that counts as halted. -/
def haltThreshold : Word := 0xFFFFFF00

/-- A hart after reset. -/
def reset (config : HartConfig) : Hart := ⟨0, Vector.replicate 32 0, config⟩

/-- The value of a register, of whose number the lowest five bits count. -/
def register (h : Hart) (r : Nat) : Word := h.registers[r % 32]

/-- Writes a register, of whose number the lowest five bits count. Register 0 stays 0. -/
def setRegister (h : Hart) (r : Nat) (v : Word) : Hart :=
  { h with registers := (h.registers.set (r % 32) v).set 0 0 }

/-- Whether the program counter has reached the addresses that count as halted. -/
def halted (h : Hart) : Bool := haltThreshold ≤ h.pc

end Hart

end RefHart
