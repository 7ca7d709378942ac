import Mathlib
import RefHart.Proofs.Running

/-!
# The bound on the number of cycles

**Theorem (`simulate_of_le`).** A larger bound does not change a run that ends for another reason
than its bound. A run that is stopped by its bound has made as many steps as the bound allows, and
under a larger bound the run passes through the machine in which it was stopped.

Of the reasons to halt only one depends on the bound, and the others are found again after it is
raised (`halt?_withBound`). So all steps of the run are steps under the larger bound, too
(`step_withBound`).
-/

namespace RefHart

namespace Machine

/-- The machine under another bound. -/
def withBound (m : Machine) (maxCycles : Nat) : Machine := { m with maxCycles }

variable {m m' : Machine} {bound : Nat}

theorem Fetches.withBound (h : m.Fetches) (hbound : m.maxCycles ≤ bound) :
    (m.withBound bound).Fetches :=
  { h with bounded := h.bounded.trans_le hbound }

theorem halt?_withBound {halt : Halt} (hbound : m.maxCycles ≤ bound) (h : m.halt? = some halt)
    (hne : halt ≠ .cycleBound) : (m.withBound bound).halt? = some halt := by
  rw [halt?_eq_some_iff] at h ⊢
  cases halt with
  | system => exact h
  | cycleBound => contradiction
  | pcOutOfRange pc =>
    obtain ⟨hrunning, hbounded, hsize, hpc⟩ := h
    exact ⟨hrunning, hbounded.trans_le hbound, hsize, hpc⟩
  | zeroWord =>
    obtain ⟨hfetches, hword⟩ := h
    exact ⟨hfetches.withBound hbound, hword⟩
  | fault pc address =>
    obtain ⟨hfetches, hfault⟩ := h
    exact ⟨hfetches.withBound hbound, hfault⟩

theorem step_withBound (hbound : m.maxCycles ≤ bound) (h : m.step = .ok m') :
    (m.withBound bound).step = .ok (m'.withBound bound) := by
  obtain ⟨hhalt, rfl⟩ := (step_eq_ok_iff m m').1 h
  have hfetches := fetches_of_halt?_eq_none hhalt
  refine (step_eq_ok_iff _ _).2 ⟨?_, rfl⟩
  -- Behind the tests that `Fetches` sums up, the bound plays no part.
  rw [halt?_of_fetches hfetches] at hhalt
  rw [halt?_of_fetches (hfetches.withBound hbound)]
  exact hhalt

theorem Reaches.withBound {k : Nat} (h : Reaches m k m') (hbound : m.maxCycles ≤ bound) :
    Reaches (m.withBound bound) k (m'.withBound bound) := by
  refine h.map (f := (·.withBound bound)) fun j _ m₁ m₂ hreaches hstep => ?_
  exact step_withBound (hreaches.maxCycles_eq ▸ hbound) hstep

/-- A run that its bound stops has used it up. -/
theorem cycles_run_of_cycleBound (h : m.run.2 = .cycleBound) (hcycles : m.cycles ≤ m.maxCycles) :
    m.run.1.cycles = m.maxCycles := by
  obtain ⟨k, hreaches, -⟩ := m.exists_reaches_run
  obtain ⟨-, hle⟩ := (run_snd_eq_iff m .cycleBound).1 h
  rw [hreaches.maxCycles_eq] at hle
  exact le_antisymm (hreaches.cycles_le.trans (max_le hcycles le_rfl)) hle

/-- The result of a run that its bound did not stop stays the same under a larger one, and a run
that was stopped is a part of the longer run. -/
theorem simulate_of_le (config : MachineConfig) (code data : List Byte) {N M : Nat} (h : N ≤ M) :
    let shorter := { config with maxCycles := N }
    let longer := { config with maxCycles := M }
    let r := shorter.simulate code data
    (r.halt ≠ .cycleBound → longer.simulate code data = r) ∧
      (r.halt = .cycleBound →
        r.cycles = N ∧ ∃ m, Reaches ((reset longer).load code data) N m ∧
          m.hart.registers = r.registers ∧ m.dmem.bytes = r.dmem ∧ m.hart.pc = r.pc) := by
  intro shorter longer r
  let m := (reset shorter).load code data
  obtain ⟨hreaches, hhalt⟩ := m.reaches_run rfl
  have hlonger : Reaches ((reset longer).load code data) r.cycles (m.run.1.withBound M) :=
    hreaches.withBound h
  refine ⟨?_, ?_⟩
  · intro hne
    have hbound : m.run.1.maxCycles ≤ M := hreaches.maxCycles_eq ▸ h
    rw [MachineConfig.simulate, run_of_reaches hlonger (halt?_withBound hbound hhalt hne)]
    rfl
  · intro hcycleBound
    have hcycles : r.cycles = N := cycles_run_of_cycleBound hcycleBound (Nat.zero_le N)
    rw [hcycles] at hlonger
    exact ⟨hcycles, m.run.1.withBound M, hlonger, rfl, rfl, rfl⟩

/-- A jump to itself. -/
theorem simulate_of_le_jal :
    let code : List Byte := [0x00, 0x00, 0x00, 0x6F]
    let r := MachineConfig.simulate { maxCycles := 2 } code []
    2 ≤ 5 ∧ r.halt = .cycleBound ∧ r.cycles = 2 ∧
      ∃ m, Reaches ((reset { maxCycles := 5 }).load code []) 2 m ∧ m.hart.pc = r.pc := by
  intro code r
  let m := (reset { maxCycles := 2 }).load code []
  have hfirst : m.halt? = none := by decide +kernel
  have hsecond : m.retire.halt? = none := by decide +kernel
  have hlast : m.retire.retire.halt? = some .cycleBound := by decide +kernel
  have hhalt : r.halt = .cycleBound := by
    show m.run.2 = .cycleBound
    rw [run_of_halt?_eq_none hfirst, run_of_halt?_eq_none hsecond, run_of_halt?_eq_some hlast]
  obtain ⟨hcycles, m', hreaches, -, -, hpc⟩ :=
    (simulate_of_le {} code [] (by decide : 2 ≤ 5)).2 hhalt
  exact ⟨by decide, hhalt, hcycles, m', hreaches, hpc⟩

end Machine

end RefHart
