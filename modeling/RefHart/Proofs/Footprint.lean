import Mathlib
import RefHart.Proofs.Faults
import RefHart.Proofs.Operations

/-!
# What an instruction touches

**Theorem (`execute_footprint`).** Executing an instruction changes at most the program counter, the
destination register and the bytes that a store inside the memory writes; a trap changes nothing. And
what it does is settled by its sources: two states that agree on the program counter, the switches,
the two source registers, the size of the memory and the bytes that a load reads meet the same trap,
or go on to the same address after the same value was written to the destination of both.

What an instruction can do at all is listed once, by `Hart.Does`. For the changes, each entry of the
list is looked at once for the registers and once for the memory. For the sources, the effect of an
instruction does not depend on anything else by its definition, so that only carrying it out is left.
-/

namespace RefHart

/-! ## What an instruction can do -/

/-- The instruction has a destination register on a hart with the given switches: it is claimed, not
left out for lack of the multiply/divide extension, and neither a branch nor a store nor a system
instruction. -/
def Instruction.HasDestination (d : Instruction) (config : HartConfig) : Prop :=
  ∃ op, d.op = some op ∧ (op.isMulDiv = true → config.mulDiv = true) ∧
    op.description.opcode ∉ [Opcode.branch, .store, .system]

namespace Hart

/-- The effects that an instruction can have on a hart. -/
inductive Does (h : Hart) (d : Instruction) : Effect → Prop where
  | jump (target : Word) : Does h d (.jump target)
  | write (v target : Word) : d.HasDestination h.config → Does h d (.write d.rd v target)
  | load {op : Mnemonic} : d.op = some op → op.description.opcode = .load →
    Does h d (.load d.rd (loadKind op).1 (loadKind op).2 (h.address d) (h.pc + 4))
  | store {op : Mnemonic} : d.op = some op → op.description.opcode = .store →
    Does h d (.store (storeWidth op) (h.address d) (h.register d.rs2) (h.pc + 4))

theorem does_effect (h : Hart) (d : Instruction) : h.Does d (h.effect d) := by
  cases hop : d.op with
  | none =>
    rw [effect, Instruction.effect, Instruction.active?, hop]
    exact .jump _
  | some op =>
    by_cases hactive : op.isMulDiv ∧ h.config.mulDiv = false
    · rw [effect_of_op hop, if_pos hactive]
      exact .jump _
    have hmulDiv : op.isMulDiv = true → h.config.mulDiv = true := by
      intro hm
      rw [← Bool.not_eq_false]
      exact fun hoff => hactive ⟨hm, hoff⟩
    have hdest (hcode : op.description.opcode ∉ [Opcode.branch, .store, .system]) :
        d.HasDestination h.config := ⟨op, hop, hmulDiv, hcode⟩
    cases hcode : op.description.opcode with
    | load =>
      rw [h.effect_of_load d hop hcode]
      exact .load hop hcode
    | store =>
      rw [h.effect_of_store d hop hcode]
      exact .store hop hcode
    | op =>
      rw [effect_of_op hop, if_neg hactive, Instruction.effectOf, hcode]
      cases Alu.register? op (h.register d.rs1) (h.register d.rs2) with
      | none => exact .jump _
      | some v => exact .write v _ (hdest (by rw [hcode]; decide))
    | opImm =>
      rw [effect_of_op hop, if_neg hactive, Instruction.effectOf, hcode]
      cases Alu.immediate? op (h.register d.rs1) d.imm with
      | none => exact .jump _
      | some v => exact .write v _ (hdest (by rw [hcode]; decide))
    | lui | auipc | jal | jalr =>
      rw [effect_of_op hop, if_neg hactive, Instruction.effectOf, hcode]
      exact .write _ _ (hdest (by rw [hcode]; decide))
    | branch | system =>
      rw [effect_of_op hop, if_neg hactive, Instruction.effectOf, hcode]
      exact .jump _

end Hart

/-! ## What an instruction leaves alone and what it reads -/

namespace Hart

/-- The instruction stores `width` bytes, all of them in the memory. -/
def Stores (h : Hart) (memory : Memory) (d : Instruction) (width : Nat) : Prop :=
  ∃ op, h.AccessesInside d memory op width ∧ op.description.opcode = .store

/-- The hart with a value in a register, if there is one, and a new program counter. -/
def receive (h : Hart) (rd : Nat) (v? : Option Word) (target : Word) : Hart :=
  { v?.elim h (h.setRegister rd) with pc := target }

end Hart

/-- What an instruction leaves alone, and what a store puts down. -/
structure Footprint (h : Hart) (memory : Memory) (d : Instruction) (h' : Hart) (memory' : Memory) :
    Prop where
  config : h'.config = h.config
  zero : h'.register 0 = 0
  others : ∀ r, r % 32 ≠ d.rd % 32 → h'.register r = h.register r
  registers : ¬ d.HasDestination h.config → h'.registers = h.registers
  size : memory'.size = memory.size
  order : memory'.order = memory.order
  bytes : ∀ p, (∀ width, h.Stores memory d width →
    p < (h.address d).toNat ∨ (h.address d).toNat + width ≤ p) → memory'.byte p = memory.byte p
  stored : ∀ width, h.Stores memory d width → ∀ i < width,
    memory'.byte ((h.address d).toNat + i) =
      (memory.order.bytes width (h.register d.rs2).toNat).getD i 0

/-- The two states agree on all that an instruction reads. -/
structure AgreeOnSources (d : Instruction) (h₁ h₂ : Hart) (memory₁ memory₂ : Memory) : Prop where
  pc : h₁.pc = h₂.pc
  config : h₁.config = h₂.config
  rs1 : h₁.register d.rs1 = h₂.register d.rs1
  rs2 : h₁.register d.rs2 = h₂.register d.rs2
  size : memory₁.size = memory₂.size
  /-- The bytes that a load reads, put together in the same order. The data memories of machines
  are all little-endian. -/
  loaded : ∀ op width, d.op = some op → op.description.opcode = .load →
    op.accessWidth? = some width → memory₁.order = memory₂.order ∧
      ∀ p, (h₁.address d).toNat ≤ p → p < (h₁.address d).toNat + width →
        memory₁.byte p = memory₂.byte p

/-! ## Changes -/

namespace Hart

variable {h : Hart} {memory : Memory} {d : Instruction} {e : Effect}

theorem register_setRegister_of_ne (hzero : h.register 0 = 0) {r rd : Nat} (hr : r % 32 ≠ rd % 32)
    (v : Word) : (h.setRegister rd v).register r = h.register r := by
  rw [register_setRegister, if_neg hr]
  split_ifs with hr0
  · rw [← hzero, register, register]
    simp only [hr0, Nat.zero_mod]
  · rfl

theorem register_apply_of_ne (hdoes : h.Does d e) (hzero : h.register 0 = 0) {r : Nat}
    (hr : r % 32 ≠ d.rd % 32) : (h.apply memory e).1.register r = h.register r := by
  cases hdoes with
  | jump => rfl
  | write v => exact register_setRegister_of_ne hzero hr v
  | load =>
    rw [apply]
    split_ifs
    · exact register_setRegister_of_ne hzero hr _
    · rfl
  | store => rw [apply]; split_ifs <;> rfl

theorem registers_apply_of_not_hasDestination (hdoes : h.Does d e)
    (hnone : ¬ d.HasDestination h.config) : (h.apply memory e).1.registers = h.registers := by
  cases hdoes with
  | jump => rfl
  | write v target hdest => exact absurd hdest hnone
  | @load op hop hload =>
    have hmulDiv := Mnemonic.isMulDiv_eq_false (Mnemonic.accessWidth?_of_load hload)
    exact absurd ⟨op, hop, by rw [hmulDiv]; exact nofun, by rw [hload]; decide⟩ hnone
  | store => rw [apply]; split_ifs <;> rfl

theorem byte_apply_of_not_stored (hdoes : h.Does d e) {p : Nat}
    (hp : ∀ width, h.Stores memory d width →
      p < (h.address d).toNat ∨ (h.address d).toNat + width ≤ p) :
    (h.apply memory e).2.byte p = memory.byte p := by
  cases hdoes with
  | jump | write => rfl
  | load => rw [apply]; split_ifs <;> rfl
  | @store op hop hstore =>
    rw [apply]
    split_ifs with hholds
    · have hapart := hp _ ⟨op, ⟨hop, Mnemonic.accessWidth?_of_store hstore, hholds⟩, hstore⟩
      exact (Memory.byte_set hholds _ p).trans (if_neg (by omega))
    · rfl

theorem byte_apply_of_stores {width : Nat} (hstores : h.Stores memory d width) {i : Nat}
    (hi : i < width) :
    (h.apply memory (h.effect d)).2.byte ((h.address d).toNat + i) =
      (memory.order.bytes width (h.register d.rs2).toNat).getD i 0 := by
  obtain ⟨op, ⟨hop, hwidth, hholds⟩, hstore⟩ := hstores
  obtain rfl := Mnemonic.width_of_store hstore hwidth
  rw [h.effect_of_store d hop hstore, apply, if_pos hholds]
  rw [Memory.byte_set hholds, if_pos (by omega), Nat.add_sub_cancel_left]

theorem footprint_apply (hzero : h.register 0 = 0) :
    Footprint h memory d (h.apply memory (h.effect d)).1 (h.apply memory (h.effect d)).2 where
  config := h.config_apply memory _
  zero := h.register_zero_apply memory hzero _
  others _ := register_apply_of_ne (h.does_effect d) hzero
  registers := registers_apply_of_not_hasDestination (h.does_effect d)
  size := h.size_apply memory _
  order := h.order_apply memory _
  bytes _ := byte_apply_of_not_stored (h.does_effect d)
  stored _ hstores _ := byte_apply_of_stores hstores

theorem footprint_of_ok (hzero : h.register 0 = 0) {h' : Hart} {memory' : Memory}
    (hok : h.execute memory d = .ok (h', memory')) : Footprint h memory d h' memory' := by
  have happly : h.execute memory d = .ok (h.apply memory (h.effect d)) := by
    apply execute_of_ne_error
    rw [hok]
    exact nofun
  obtain ⟨rfl, rfl⟩ := Prod.mk.inj (Except.ok.inj (hok.symm.trans happly))
  exact footprint_apply hzero

theorem not_stores_of_error {trap : Trap} (herror : h.execute memory d = .error trap) (width : Nat) :
    ¬ h.Stores memory d width := by
  rintro ⟨op, hinside, -⟩
  rw [execute_of_accessesInside hinside] at herror
  contradiction

theorem footprint_of_error (hzero : h.register 0 = 0) {trap : Trap}
    (herror : h.execute memory d = .error trap) : Footprint h memory d h memory where
  config := rfl
  zero := hzero
  others _ _ := rfl
  registers _ := rfl
  size := rfl
  order := rfl
  bytes _ _ := rfl
  stored width hstores := absurd hstores (not_stores_of_error herror width)

end Hart

/-! ## Sources -/

namespace Memory

theorem getElem?_eq_some_byte {m : Memory} {p : Nat} (h : p < m.size) :
    m.bytes[p]? = some (m.byte p) := by
  have hp : p < m.bytes.size := h
  rw [byte, Array.getD_eq_getD_getElem?, Array.getElem?_eq_getElem hp, Option.getD_some]

/-- What is read depends on the bytes that are read. -/
theorem get_congr {m m' : Memory} {address : Word} {width : Nat} (horder : m.order = m'.order)
    (h : m.Holds address width) (h' : m'.Holds address width)
    (hbytes : ∀ p, address.toNat ≤ p → p < address.toNat + width → m.byte p = m'.byte p) :
    m.get address width = m'.get address width := by
  have hextract : m.bytes.extract address.toNat (address.toNat + width) =
      m'.bytes.extract address.toNat (address.toNat + width) := by
    apply Array.ext_getElem?
    intro i
    have hsize : address.toNat + width ≤ m.bytes.size := h
    have hsize' : address.toNat + width ≤ m'.bytes.size := h'
    rw [Array.getElem?_extract, Array.getElem?_extract]
    by_cases hi : i < width
    · rw [if_pos (by omega), if_pos (by omega), getElem?_eq_some_byte (by rw [size]; omega),
        getElem?_eq_some_byte (by rw [size]; omega), hbytes _ (by omega) (by omega)]
    · rw [if_neg (by omega), if_neg (by omega)]
  rw [get, get, horder, hextract]

end Memory

namespace AgreeOnSources

variable {d : Instruction} {h₁ h₂ : Hart} {memory₁ memory₂ : Memory}

theorem address_eq (h : AgreeOnSources d h₁ h₂ memory₁ memory₂) : h₁.address d = h₂.address d := by
  rw [Hart.address, Hart.address, h.rs1]

theorem effect_eq (h : AgreeOnSources d h₁ h₂ memory₁ memory₂) : h₁.effect d = h₂.effect d := by
  rw [Hart.effect, Hart.effect, h.pc, h.config, h.rs1, h.rs2]

theorem holds_iff (h : AgreeOnSources d h₁ h₂ memory₁ memory₂) (address : Word) (width : Nat) :
    memory₁.Holds address width ↔ memory₂.Holds address width := by
  rw [Memory.Holds, Memory.Holds, h.size]

theorem fault?_eq (h : AgreeOnSources d h₁ h₂ memory₁ memory₂) :
    h₁.fault? memory₁ d = h₂.fault? memory₂ d := by
  rw [Hart.fault?, Hart.fault?, h.effect_eq, h.config, h.pc, h.size]
  cases (h₂.effect d).access? with
  | none => rfl
  | some access => exact if_congr (and_congr_right' (not_congr (h.holds_iff ..))) rfl rfl

/-- Both harts receive the same. -/
theorem exists_receive (h : AgreeOnSources d h₁ h₂ memory₁ memory₂) {e : Effect}
    (hdoes : h₁.Does d e) :
    ∃ v? target, (h₁.apply memory₁ e).1 = h₁.receive d.rd v? target ∧
      (h₂.apply memory₂ e).1 = h₂.receive d.rd v? target := by
  cases hdoes with
  | jump target => exact ⟨none, target, rfl, rfl⟩
  | write v target => exact ⟨some v, target, rfl, rfl⟩
  | @load op hop hload =>
    rw [Hart.apply, Hart.apply]
    by_cases hholds : memory₁.Holds (h₁.address d) (loadKind op).1
    · obtain ⟨horder, hbytes⟩ := h.loaded op _ hop hload (Mnemonic.accessWidth?_of_load hload)
      have hholds₂ := (h.holds_iff ..).1 hholds
      rw [if_pos hholds, if_pos hholds₂, Memory.get_congr horder hholds hholds₂ hbytes]
      exact ⟨some _, _, rfl, rfl⟩
    · rw [if_neg hholds, if_neg fun hholds₂ => hholds ((h.holds_iff ..).2 hholds₂)]
      exact ⟨none, _, rfl, rfl⟩
  | store =>
    rw [Hart.apply, Hart.apply]
    refine ⟨none, h₁.pc + 4, ?_, ?_⟩ <;> split_ifs <;> rfl

end AgreeOnSources

/-- An instruction writes its target register, the program counter and the stored bytes only, and
what it writes depends on its sources only. -/
theorem execute_footprint (m : Machine) (d : Instruction) (hzero : m.hart.register 0 = 0) :
    (∀ result m', InPlace.execute d m = (result, m') →
      m.hart.execute m.dmem d = result.map (fun _ => (m'.hart, m'.dmem)) ∧
        Footprint m.hart m.dmem d m'.hart m'.dmem) ∧
    ∀ (h₂ : Hart) (memory₂ : Memory), AgreeOnSources d m.hart h₂ m.dmem memory₂ →
      (∃ trap, m.hart.execute m.dmem d = .error trap ∧ h₂.execute memory₂ d = .error trap) ∨
      ∃ v? target memory' memory₂',
        m.hart.execute m.dmem d = .ok (m.hart.receive d.rd v? target, memory') ∧
        h₂.execute memory₂ d = .ok (h₂.receive d.rd v? target, memory₂') := by
  constructor
  · intro result m' hexecute
    rw [InPlace.execute_eq_execute] at hexecute
    cases hresult : m.hart.execute m.dmem d with
    | error trap =>
      rw [hresult] at hexecute
      obtain ⟨rfl, rfl⟩ := Prod.mk.inj hexecute
      exact ⟨rfl, Hart.footprint_of_error hzero hresult⟩
    | ok state =>
      rw [hresult] at hexecute
      obtain ⟨rfl, rfl⟩ := Prod.mk.inj hexecute
      exact ⟨rfl, Hart.footprint_of_ok hzero hresult⟩
  · intro h₂ memory₂ hagree
    rw [Hart.execute, Hart.execute, ← hagree.fault?_eq, ← hagree.effect_eq]
    cases m.hart.fault? m.dmem d with
    | some fault => exact .inl ⟨_, rfl, rfl⟩
    | none =>
      obtain ⟨v?, target, hreceive, hreceive₂⟩ := hagree.exists_receive (m.hart.does_effect d)
      refine .inr ⟨v?, target, (m.hart.apply m.dmem (m.hart.effect d)).2,
        (h₂.apply memory₂ (m.hart.effect d)).2, ?_, ?_⟩
      · rw [← hreceive]
      · rw [← hreceive₂]

/-- `lb x1, 2(x1)`, whose destination is its source, on two harts and memories that differ in
everything else. -/
theorem execute_footprint_lb :
    let h := (Hart.reset {}).setRegister 1 4
    let h₂ := h.setRegister 7 99
    let memory : Memory := ⟨#[1, 2, 3, 4, 5, 6, 0x80, 8], .little⟩
    let memory₂ : Memory := ⟨#[0, 0, 0, 0, 0, 0, 0x80, 0], .little⟩
    let d := Instruction.decode 0x00208083
    h.register 0 = 0 ∧ AgreeOnSources d h h₂ memory memory₂ ∧
      ∃ v? memory' memory₂', h.execute memory d = .ok (h.receive 1 v? 4, memory') ∧
        h₂.execute memory₂ d = .ok (h₂.receive 1 v? 4, memory₂') := by
  intro h h₂ memory memory₂ d
  have hd : d.op = some .lb ∧ d.rd = 1 := by decide
  have haddress : (h.address d).toNat = 6 := by decide
  have hagree : AgreeOnSources d h h₂ memory memory₂ := by
    refine ⟨rfl, rfl, by decide, by decide, rfl, ?_⟩
    intro op width hop _ hwidth
    obtain rfl := Option.some.inj (hd.1.symm.trans hop)
    obtain rfl := Option.some.inj hwidth
    refine ⟨rfl, fun p hle hlt => ?_⟩
    rw [haddress] at hle hlt
    obtain rfl : p = 6 := by omega
    rfl
  have hzero : h.register 0 = 0 := by decide
  let m : Machine := { Machine.reset {} with hart := h, dmem := memory }
  refine ⟨hzero, hagree, ?_⟩
  rcases (execute_footprint m d hzero).2 h₂ memory₂ hagree with ⟨trap, htrap, -⟩ | houtcome
  · exact nomatch ((h.execute_eq_error_iff ..).1 htrap).1
  · obtain ⟨v?, target, memory', memory₂', hexecute, hexecute₂⟩ := houtcome
    rw [hd.2] at hexecute hexecute₂
    have htarget : target = 4 := by
      have hpc := congrArg (fun result => result.toOption.map (·.1.pc)) hexecute
      exact (Option.some.inj hpc).symm
    rw [htarget] at hexecute hexecute₂
    exact ⟨v?, memory', memory₂', hexecute, hexecute₂⟩

end RefHart
