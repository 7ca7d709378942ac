import Mathlib
import RefHart.Proofs.Running

/-!
# Operations on a machine

Between steps and runs, a machine can be changed from outside: images are loaded, registers, the
program counter and the cycle count are set, and words of the instruction memory are patched.

**Theorem (`conforms_performAll`).** Whatever is done to a fresh machine, register 0 is 0, the
memories have their sizes and byte orders, and the settings are the ones it was made with. No step
and no run of any machine changes its instruction memory.

Of the operations only a step writes where the program says. What it does is an `Effect`, and an
effect writes registers by `Hart.setRegister` and bytes by `Memory.set`, which keep register 0 and
the size.
-/

namespace RefHart

/-! ## Effects -/

namespace Hart

variable (h : Hart) (memory : Memory)

theorem register_setRegister (r : Nat) (v : Word) (s : Nat) :
    (h.setRegister r v).register s =
      if s % 32 = 0 then 0 else if s % 32 = r % 32 then v else h.register s := by
  simp only [register, setRegister, Vector.getElem_set, eq_comm]

theorem register_setRegister_self {r : Nat} (hr : r % 32 ≠ 0) (v : Word) :
    (h.setRegister r v).register r = v := by
  rw [register_setRegister, if_neg hr, if_pos rfl]

@[simp] theorem register_zero_setRegister (r : Nat) (v : Word) :
    (h.setRegister r v).register 0 = 0 := h.register_setRegister r v 0

theorem register_zero_apply (hzero : h.register 0 = 0) (e : Effect) :
    (h.apply memory e).1.register 0 = 0 := by
  cases e with
  | jump => exact hzero
  | write rd v => exact h.register_zero_setRegister rd v
  | load rd =>
    rw [apply]
    split_ifs
    · exact h.register_zero_setRegister rd _
    · exact hzero
  | store => rw [apply]; split_ifs <;> exact hzero

@[simp] theorem order_apply (e : Effect) : (h.apply memory e).2.order = memory.order := by
  cases e with
  | jump | write => rfl
  | load | store => rw [apply]; split_ifs <;> rfl

end Hart

namespace Machine

/-! ## Operations -/

/-- What can be done to a machine. -/
inductive Operation where
  /-- Copies images to the start of the memories. -/
  | load (code data : List Byte)
  /-- Retires one instruction, unless the machine halts. -/
  | step
  /-- Retires instructions until the machine halts. -/
  | run
  | setRegister (r : Nat) (v : Word)
  | setPc (pc : Word)
  | setCycles (cycles : Nat)
  /-- Writes a word into the instruction memory, if it lies inside. -/
  | patch (address v : Word)
  deriving DecidableEq, Repr

/-- The machine after an operation. -/
def perform (m : Machine) : Operation → Machine
  | .load code data => m.load code data
  | .step =>
    match m.step with
    | .ok m' => m'
    | .error _ => m
  | .run => m.run.1
  | .setRegister r v => { m with hart := m.hart.setRegister r v }
  | .setPc pc => { m with hart := { m.hart with pc } }
  | .setCycles cycles => { m with cycles }
  | .patch address v =>
    match m.imem.write address 4 v.toNat with
    | .ok imem => { m with imem }
    | .error _ => m

/-- The machine after a row of operations. -/
def performAll (m : Machine) (operations : List Operation) : Machine := operations.foldl perform m

/-! ## What operations keep -/

/-- What a machine owes to the settings that it was made with. -/
structure Conforms (config : MachineConfig) (m : Machine) : Prop where
  zero : m.hart.register 0 = 0
  imemSize : m.imem.size = config.imemSize
  imemOrder : m.imem.order = .big
  dmemSize : m.dmem.size = config.dmemSize
  dmemOrder : m.dmem.order = .little
  hart : m.hart.config = config.hart
  maxCycles : m.maxCycles = config.maxCycles

variable {config : MachineConfig} {m : Machine}

theorem conforms_reset (config : MachineConfig) : (reset config).Conforms config where
  zero := Vector.getElem_replicate _
  imemSize := Memory.size_zeros ..
  imemOrder := rfl
  dmemSize := Memory.size_zeros ..
  dmemOrder := rfl
  hart := rfl
  maxCycles := rfl

namespace Conforms

theorem load (h : m.Conforms config) (code data : List Byte) : (m.load code data).Conforms config :=
  { h with
    imemSize := (Memory.size_load ..).trans h.imemSize
    dmemSize := (Memory.size_load ..).trans h.dmemSize }

theorem retire (h : m.Conforms config) : m.retire.Conforms config :=
  { h with
    zero := m.hart.register_zero_apply m.dmem h.zero _
    dmemSize := m.size_dmem_retire.trans h.dmemSize
    dmemOrder := (m.hart.order_apply m.dmem _).trans h.dmemOrder
    hart := m.config_retire.trans h.hart }

theorem reaches {k : Nat} {m' : Machine} (hreaches : Reaches m k m') (h : m.Conforms config) :
    m'.Conforms config :=
  hreaches.invariant (p := Conforms config) (fun _ h _ => h.retire) h

theorem step (h : m.Conforms config) : (m.perform .step).Conforms config := by
  rw [perform]
  split
  · rename_i m' hstep
    exact .reaches (.step .refl hstep) h
  · exact h

theorem run (h : m.Conforms config) : (m.perform .run).Conforms config := by
  obtain ⟨k, hreaches, -⟩ := m.exists_reaches_run
  exact .reaches hreaches h

theorem patch (h : m.Conforms config) (address v : Word) :
    (m.perform (.patch address v)).Conforms config := by
  rw [perform, Memory.write]
  split_ifs
  · exact { h with imemSize := (Memory.size_set ..).trans h.imemSize }
  · exact h

theorem perform (h : m.Conforms config) (operation : Operation) :
    (m.perform operation).Conforms config := by
  cases operation with
  | load code data => exact h.load code data
  | step => exact h.step
  | run => exact h.run
  | setRegister r v => exact { h with zero := m.hart.register_zero_setRegister r v }
  | setPc | setCycles => exact { h with }
  | patch address v => exact h.patch address v

theorem performAll (h : m.Conforms config) (operations : List Operation) :
    (m.performAll operations).Conforms config := by
  induction operations generalizing m with
  | nil => exact h
  | cons operation operations ih => exact ih (h.perform operation)

end Conforms

theorem imem_perform_step (m : Machine) : (m.perform .step).imem = m.imem := by
  rw [perform]
  split
  · rename_i m' hstep
    exact (Reaches.step .refl hstep).imem_eq
  · rfl

theorem imem_perform_run (m : Machine) : (m.perform .run).imem = m.imem := by
  obtain ⟨k, hreaches, -⟩ := m.exists_reaches_run
  exact hreaches.imem_eq

/-- No operations on a fresh machine break its register 0, its sizes and byte orders or its
settings, and steps and runs leave the instruction memory alone. -/
theorem conforms_performAll :
    (∀ (config : MachineConfig) (operations : List Operation),
        ((reset config).performAll operations).Conforms config) ∧
      ∀ m : Machine, (m.perform .step).imem = m.imem ∧ (m.perform .run).imem = m.imem := by
  refine ⟨?_, ?_⟩
  · intro config operations
    exact (conforms_reset config).performAll operations
  · intro m
    exact ⟨m.imem_perform_step, m.imem_perform_run⟩

end Machine

end RefHart
