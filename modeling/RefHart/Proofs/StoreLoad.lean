import Mathlib
import RefHart.Proofs.Faults
import RefHart.Proofs.Operations
import RefHart.Proofs.Word

/-!
# Loads after stores

**Theorem (`execute_load_of_stored`).** A load that is executed after a store finds at every place that
the store wrote the byte of the stored register that belongs there, and at every other place the byte
that was there before. It puts the number that these bytes make up into its destination, extended as
its mnemonic says. From this: inside the stored bytes a load returns the part of the register that was
stored there, and apart from them it returns what it would have returned without the store.

The two accesses may overlap in any way, so nothing is said about pairs of widths. The store gives one
new row of bytes (`Memory.byte_set_little`), and the load reads a number off any row
(`Memory.get_eq_littleEndian`).
-/

namespace RefHart

/-! ## Extending a number -/

/-- A number of as many bytes as a load reads, extended to a word. -/
def Mnemonic.extension (op : Mnemonic) (n : Nat) : Word :=
  match op with
  | .lb => (BitVec.ofNat 8 n).signExtend 32
  | .lh => (BitVec.ofNat 16 n).signExtend 32
  | .lbu => (BitVec.ofNat 8 n).setWidth 32
  | .lhu => (BitVec.ofNat 16 n).setWidth 32
  | _ => BitVec.ofNat 32 n

theorem Word.extendSign_ofNat {n width : Nat} (hn : n < 2 ^ 32) (h : 0 < width) (h' : width ≤ 32) :
    Word.extendSign (BitVec.ofNat 32 n) width = (BitVec.ofNat width n).signExtend 32 := by
  rw [← BitVec.toInt_inj, Word.toInt_extendSign _ h h', BitVec.toInt_signExtend_of_le h',
    BitVec.toInt_ofNat', BitVec.toNat_ofNat, Nat.mod_eq_of_lt hn]

theorem extend_loadKind {op : Mnemonic} (h : op.description.opcode = .load) {n : Nat}
    (hn : n < 256 ^ (loadKind op).1) :
    extend (loadKind op).1 (loadKind op).2 n = op.extension n := by
  cases op
  case lb | lh =>
    have hlt : n < 2 ^ 32 := hn.trans_le (by decide)
    exact Word.extendSign_ofNat hlt (by decide) (by decide)
  case lbu | lhu =>
    apply BitVec.eq_of_toNat_eq
    simp only [loadKind] at hn
    rw [Mnemonic.extension, BitVec.toNat_setWidth, BitVec.toNat_ofNat, extend, if_neg (by decide),
      BitVec.toNat_ofNat]
    omega
  case lw => rfl
  all_goals contradiction

/-! ## Accesses inside the memory -/

namespace Hart

variable {h : Hart} {memory : Memory} {d : Instruction} {op : Mnemonic} {width : Nat}

theorem execute_load (hinside : h.AccessesInside d memory op width)
    (hload : op.description.opcode = .load) :
    h.execute memory d =
      .ok ({ h.setRegister d.rd (op.extension (memory.get (h.address d) width)) with pc := h.pc + 4 },
        memory) := by
  rw [execute_of_accessesInside hinside, h.effect_of_load d hinside.claimed hload]
  obtain rfl := Mnemonic.width_of_load hload hinside.accesses
  rw [apply, if_pos hinside.holds, extend_loadKind hload (memory.get_lt ..)]

theorem execute_store (hinside : h.AccessesInside d memory op width)
    (hstore : op.description.opcode = .store) :
    h.execute memory d =
      .ok ({ h with pc := h.pc + 4 }, memory.set (h.address d) width (h.register d.rs2).toNat) := by
  rw [execute_of_accessesInside hinside, h.effect_of_store d hinside.claimed hstore]
  obtain rfl := Mnemonic.width_of_store hstore hinside.accesses
  rw [apply, if_pos hinside.holds]

end Hart

/-! ## A store, then a load -/

/-- The bytes of a memory after `width` bytes of a word were put down from a place on. -/
def Memory.bytesAfter (memory : Memory) (start width : Nat) (v : Word) (p : Nat) : Byte :=
  if start ≤ p ∧ p < start + width then v.byte (p - start) else memory.byte p

section

variable {memory : Memory} {start width from' width' : Nat} {v : Word}

theorem Memory.littleEndian_bytesAfter_of_inside (h : start ≤ from')
    (h' : from' + width' ≤ start + width) :
    littleEndian (memory.bytesAfter start width v) from' width' =
      v.toNat / 256 ^ (from' - start) % 256 ^ width' := by
  rw [← littleEndian_byte]
  refine Finset.sum_congr rfl fun i hi => ?_
  rw [Finset.mem_range] at hi
  rw [Memory.bytesAfter, if_pos (by omega), Nat.sub_add_comm h]

theorem Memory.littleEndian_bytesAfter_of_disjoint
    (h : from' + width' ≤ start ∨ start + width ≤ from') :
    littleEndian (memory.bytesAfter start width v) from' width' =
      littleEndian memory.byte from' width' := by
  refine littleEndian_congr fun p _ _ => ?_
  rw [Memory.bytesAfter, if_neg (by omega)]

end

/-- A load gives the bytes that the store has left behind: those of the stored register where it
wrote, and those of before elsewhere. -/
theorem execute_load_of_stored {h : Hart} {memory : Memory} {s l : Instruction}
    {store load : Mnemonic} {width width' : Nat} (hlittle : memory.order = .little)
    (hs : h.AccessesInside s memory store width) (hstore : store.description.opcode = .store)
    (hl : h.AccessesInside l memory load width') (hload : load.description.opcode = .load)
    (hrd : l.rd % 32 ≠ 0) :
    let v := h.register s.rs2
    let a := (h.address s).toNat
    let b := (h.address l).toNat
    let h₁ : Hart := { h with pc := h.pc + 4 }
    ∃ memory₁ h₂, h.execute memory s = .ok (h₁, memory₁) ∧ h₁.execute memory₁ l = .ok (h₂, memory₁) ∧
      memory₁.size = memory.size ∧ (∀ p, memory₁.byte p = memory.bytesAfter a width v p) ∧
      h₂.pc = h₁.pc + 4 ∧
      h₂.register l.rd = load.extension (littleEndian (memory.bytesAfter a width v) b width') ∧
      (a ≤ b → b + width' ≤ a + width →
        h₂.register l.rd = load.extension (v.toNat / 256 ^ (b - a) % 256 ^ width')) ∧
      (b + width' ≤ a ∨ a + width ≤ b →
        ∃ h', h.execute memory l = .ok (h', memory) ∧ h₂.register l.rd = h'.register l.rd) := by
  intro v a b h₁
  let memory₁ := memory.set (h.address s) width v.toNat
  have hbytes (p : Nat) : memory₁.byte p = memory.bytesAfter a width v p :=
    Memory.byte_set_little hlittle hs.holds v p
  have hsize : memory₁.size = memory.size := memory.size_set ..
  have hlittle₁ : memory₁.order = .little := hlittle
  have hl₁ : h₁.AccessesInside l memory₁ load width' :=
    ⟨hl.claimed, hl.accesses, hl.holds.trans hsize.ge⟩
  -- What the load reads is a number of the bytes after the store.
  have hvalue : memory₁.get (h₁.address l) width' =
      littleEndian (memory.bytesAfter a width v) b width' := by
    rw [Memory.get_eq_littleEndian hlittle₁ hl₁.holds]
    exact littleEndian_congr fun p _ _ => hbytes p
  have hrd₂ := h₁.register_setRegister_self hrd (load.extension (memory₁.get (h₁.address l) width'))
  refine ⟨memory₁, _, Hart.execute_store hs hstore, Hart.execute_load hl₁ hload, hsize, hbytes, rfl,
    hrd₂.trans ?_, fun hle hle' => hrd₂.trans ?_, fun hdisjoint => ?_⟩
  · rw [hvalue]
  · rw [hvalue, Memory.littleEndian_bytesAfter_of_inside hle hle']
  · refine ⟨_, Hart.execute_load hl hload, hrd₂.trans ?_⟩
    rw [hvalue, Memory.littleEndian_bytesAfter_of_disjoint hdisjoint,
      ← Memory.get_eq_littleEndian hlittle hl.holds]
    exact (h.register_setRegister_self hrd _).symm

/-- `sh x2, 2(x1)` at an address that wraps around to 1, and `lh x3, 2(x0)`, whose upper byte was there
before. -/
theorem execute_load_of_stored_overlapping :
    let h := ((Hart.reset {}).setRegister 1 0xFFFFFFFF).setRegister 2 0x1234ABCD
    let memory : Memory := ⟨#[0x10, 0x20, 0x30, 0x80], .little⟩
    let s := Instruction.decode 0x00209123
    let l := Instruction.decode 0x00201183
    h.address s = 1 ∧ h.address l = 2 ∧
      ∃ memory₁ h₂, h.execute memory s = .ok ({ h with pc := 4 }, memory₁) ∧
        ({ h with pc := 4 } : Hart).execute memory₁ l = .ok (h₂, memory₁) ∧
        h₂.register 3 = 0xFFFF80AB := by
  intro h memory s l
  have hlittle : memory.order = .little := rfl
  have ha : h.address s = 1 := by decide
  have hb : h.address l = 2 := by decide
  have hs : h.AccessesInside s memory .sh 2 := ⟨by decide, rfl, by rw [ha]; decide⟩
  have hl : h.AccessesInside l memory .lh 2 := ⟨by decide, rfl, by rw [hb]; decide⟩
  have hrd : l.rd = 3 := by decide
  obtain ⟨memory₁, h₂, hstore, hload, -, -, -, hvalue, -⟩ :=
    execute_load_of_stored hlittle hs rfl hl rfl (by rw [hrd]; decide)
  refine ⟨ha, hb, memory₁, h₂, hstore, hload, ?_⟩
  rw [hrd] at hvalue
  rw [hvalue]
  decide

end RefHart
