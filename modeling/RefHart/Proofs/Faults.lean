import Mathlib
import RefHart.Proofs.Effects
import RefHart.Proofs.InPlace

/-!
# Accesses outside the data memory

**Theorem (`execute_outside`).** The one trap that executing an instruction raises is that of a load
or store whose bytes do not all lie in the data memory, under the policy `fault`. It carries the
address of the instruction and that of the access, and leaves everything as it was. Under the policy
`ignore` such an access moves the program counter to the next instruction and does nothing else.

The end of an access is a sum of natural numbers: an access at the top of the address space does not
go on at its start. The sum that gives the address of the access, in contrast, is one of words.
-/

namespace RefHart

/-! ## Loads and stores -/

namespace Mnemonic

variable {op : Mnemonic} {width : Nat}

theorem accessWidth?_of_load (h : op.description.opcode = .load) :
    op.accessWidth? = some (loadKind op).1 := by
  cases op <;> first | rfl | contradiction

theorem accessWidth?_of_store (h : op.description.opcode = .store) :
    op.accessWidth? = some (storeWidth op) := by
  cases op <;> first | rfl | contradiction

theorem width_of_load (h : op.description.opcode = .load) (hwidth : op.accessWidth? = some width) :
    width = (loadKind op).1 :=
  Option.some.inj (hwidth.symm.trans (accessWidth?_of_load h))

theorem width_of_store (h : op.description.opcode = .store) (hwidth : op.accessWidth? = some width) :
    width = storeWidth op :=
  Option.some.inj (hwidth.symm.trans (accessWidth?_of_store h))

theorem load_or_store_of_accessWidth? (hwidth : op.accessWidth? = some width) :
    op.description.opcode = .load ∨ op.description.opcode = .store := by
  cases op <;> first | exact .inl rfl | exact .inr rfl | contradiction

end Mnemonic

namespace Hart

variable (h : Hart) (d : Instruction) {op : Mnemonic}

/-- The address that a load or a store accesses. -/
def address : Word := h.register d.rs1 + d.imm

/-- The instruction is the load or store `op`, and its `width` bytes all lie in the memory. -/
structure AccessesInside (memory : Memory) (op : Mnemonic) (width : Nat) : Prop where
  claimed : d.op = some op
  accesses : op.accessWidth? = some width
  holds : memory.Holds (h.address d) width

/-- The instruction is a load or store with bytes outside the memory. -/
def AccessesOutside (memory : Memory) : Prop :=
  ∃ op width, d.op = some op ∧ op.accessWidth? = some width ∧
    memory.size < (h.address d).toNat + width

theorem effect_of_load (hop : d.op = some op) (hload : op.description.opcode = .load) :
    h.effect d = .load d.rd (loadKind op).1 (loadKind op).2 (h.address d) (h.pc + 4) := by
  rw [effect_of_op hop, Mnemonic.isMulDiv_eq_false (Mnemonic.accessWidth?_of_load hload),
    Instruction.effectOf, hload]
  rfl

theorem effect_of_store (hop : d.op = some op) (hstore : op.description.opcode = .store) :
    h.effect d = .store (storeWidth op) (h.address d) (h.register d.rs2) (h.pc + 4) := by
  rw [effect_of_op hop, Mnemonic.isMulDiv_eq_false (Mnemonic.accessWidth?_of_store hstore),
    Instruction.effectOf, hstore]
  rfl

end Hart

/-! ## Traps -/

namespace Hart

variable (h : Hart) (memory : Memory) (d : Instruction)

theorem execute_eq_error_iff (trap : Trap) :
    h.execute memory d = .error trap ↔
      h.config.outOfRange = .fault ∧
        ∃ op width, d.op = some op ∧ op.accessWidth? = some width ∧
          memory.size < (h.address d).toNat + width ∧
          trap = .bus ⟨h.pc, h.address d, width, h.address d, memory.size⟩ := by
  have hfault : h.execute memory d = .error trap ↔
      ∃ fault, h.fault? memory d = some fault ∧ .bus fault = trap := by
    rw [execute]
    cases h.fault? memory d <;> simp
  rw [hfault]
  constructor
  · rintro ⟨⟨pc, address, cause⟩, hsome, rfl⟩
    obtain ⟨hpc, hpolicy, op, width, hop, hwidth, haddress, hsize, hcause⟩ :=
      (h.fault?_eq_some_iff ..).1 hsome
    dsimp only at hpc haddress hsize hcause
    subst hpc haddress hcause
    exact ⟨hpolicy, op, width, hop, hwidth, hsize, rfl⟩
  · rintro ⟨hpolicy, op, width, hop, hwidth, hsize, rfl⟩
    exact ⟨_, (h.fault?_eq_some_iff ..).2 ⟨rfl, hpolicy, op, width, hop, hwidth, rfl, hsize, rfl⟩, rfl⟩

variable {h memory d}

/-- What does not trap is carried out. -/
theorem execute_of_ne_error (hok : ∀ trap, h.execute memory d ≠ .error trap) :
    h.execute memory d = .ok (h.apply memory (h.effect d)) := by
  unfold execute at hok ⊢
  cases hfault : h.fault? memory d with
  | none => rfl
  | some fault =>
    rw [hfault] at hok
    exact absurd rfl (hok (.bus fault))

/-- An access inside the memory does not trap. -/
theorem execute_of_accessesInside {op : Mnemonic} {width : Nat}
    (hinside : h.AccessesInside d memory op width) :
    h.execute memory d = .ok (h.apply memory (h.effect d)) := by
  apply execute_of_ne_error
  intro trap htrap
  obtain ⟨-, op', width', hop', hwidth', hsize, -⟩ := (h.execute_eq_error_iff ..).1 htrap
  obtain rfl := Option.some.inj (hinside.claimed.symm.trans hop')
  obtain rfl := Option.some.inj (hinside.accesses.symm.trans hwidth')
  exact absurd hinside.holds (not_le.2 hsize)

/-- An access outside the memory that does not trap only moves the program counter. -/
theorem apply_of_accessesOutside (houtside : h.AccessesOutside d memory) :
    h.apply memory (h.effect d) = ({ h with pc := h.pc + 4 }, memory) := by
  obtain ⟨op, width, hop, hwidth, hsize⟩ := houtside
  have hholds : ¬ memory.Holds (h.address d) width := not_le.2 hsize
  rcases Mnemonic.load_or_store_of_accessWidth? hwidth with hload | hstore
  · obtain rfl := Mnemonic.width_of_load hload hwidth
    rw [h.effect_of_load d hop hload, apply, if_neg hholds]
  · obtain rfl := Mnemonic.width_of_store hstore hwidth
    rw [h.effect_of_store d hop hstore, apply, if_neg hholds]

end Hart

theorem InPlace.execute_eq_error_iff (m : Machine) (d : Instruction) (trap : Trap) (m' : Machine) :
    execute d m = (.error trap, m') ↔ m.hart.execute m.dmem d = .error trap ∧ m' = m := by
  rw [execute_eq_execute]
  cases m.hart.execute m.dmem d with
  | ok => exact ⟨nofun, nofun⟩
  | error =>
    constructor
    · intro heq
      cases heq
      exact ⟨rfl, rfl⟩
    · rintro ⟨heq, rfl⟩
      cases heq
      rfl

/-- Only accesses outside the memory trap, and only under one policy; under the other they pass
without effect. A trap changes nothing. -/
theorem execute_outside (m : Machine) (d : Instruction) :
    (∀ trap, m.hart.execute m.dmem d = .error trap ↔
      m.hart.config.outOfRange = .fault ∧
        ∃ op width, d.op = some op ∧ op.accessWidth? = some width ∧
          m.dmem.size < (m.hart.address d).toNat + width ∧
          trap = .bus ⟨m.hart.pc, m.hart.address d, width, m.hart.address d, m.dmem.size⟩) ∧
    (m.hart.config.outOfRange = .ignore → m.hart.AccessesOutside d m.dmem →
      m.hart.execute m.dmem d = .ok ({ m.hart with pc := m.hart.pc + 4 }, m.dmem)) ∧
    ∀ trap m', InPlace.execute d m = (.error trap, m') ↔
      m.hart.execute m.dmem d = .error trap ∧ m' = m := by
  refine ⟨m.hart.execute_eq_error_iff m.dmem d, ?_, InPlace.execute_eq_error_iff m d⟩
  intro hpolicy houtside
  have hok (trap : Trap) : m.hart.execute m.dmem d ≠ .error trap := by
    rw [Ne, m.hart.execute_eq_error_iff, hpolicy]
    exact fun htrap => nomatch htrap.1
  rw [Hart.execute_of_ne_error hok, Hart.apply_of_accessesOutside houtside]

/-- A word stored at `0xFFFFFFFE`, which neither goes on at address 0 nor is written in part, and a
load of two bytes of which the second lies behind the end. -/
theorem execute_outside_wrapped :
    let h := ((Hart.reset { outOfRange := .fault }).setRegister 1 2).setRegister 2 0xAABBCCDD
    let m : Machine := { Machine.reset {} with hart := h }
    let store := Instruction.decode 0xFE20AE23
    let load := Instruction.decode 0x01D09103
    h.address store = 0xFFFFFFFE ∧
      InPlace.execute store m =
        (.error (.bus ⟨0, 0xFFFFFFFE, 4, 0xFFFFFFFE, 32⟩), m) ∧
      ({ h with config := {} } : Hart).execute m.dmem load =
        .ok ({ h with config := {}, pc := 4 }, m.dmem) := by
  intro h m store load
  have hstore : store.op = some .sw := by decide
  have hload : load.op = some .lh := by decide
  have haddress : h.address store = 0xFFFFFFFE := by decide
  have htrap := ((execute_outside m store).1 (.bus ⟨0, 0xFFFFFFFE, 4, 0xFFFFFFFE, 32⟩)).2
    ⟨rfl, .sw, 4, hstore, rfl, by decide, by rw [haddress]; rfl⟩
  let m' : Machine := { m with hart := { h with config := {} } }
  have hskip := (execute_outside m' load).2.1 rfl ⟨.lh, 2, hload, rfl, by decide⟩
  exact ⟨haddress, ((execute_outside m store).2.2 _ m).2 ⟨htrap, rfl⟩, hskip⟩

end RefHart
