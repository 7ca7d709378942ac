import Mathlib
import RefHart.Proofs.Halting
import RefHart.Proofs.Refinement

/-!
# Zero words

**Theorem (`zeroWord_outside`).** Inside the image of a program without errors no instruction word
is read as 0, so a run that a zero word stops has left the image.

The program counter need not be a multiple of four: a jump may lead into the middle of a word, and
the word that is fetched there is made of two halves. But it is even as long as instructions retire,
so a fetch inside the image takes in the last byte of an emitted word. That byte holds the opcode,
which is never 0.
-/

namespace RefHart

open Instruction

/-! ## The last byte of a word -/

/-- The last byte of a word that stands for an instruction holds the opcode. -/
theorem Instruction.lastByte_ne_zero {w : Word} (h : (decode w).op ≠ none) :
    BitVec.ofNat 8 w.toNat ≠ 0 := by
  obtain ⟨op, hop⟩ := Option.ne_none_iff_exists'.1 h
  have hcode : Opcode.ofCode? (field w 6 0) = some op.description.opcode := ofCode?_of_mnemonic? hop
  intro hzero
  have hbyte : w.toNat % 2 ^ 8 = 0 := by
    rw [← BitVec.toNat_ofNat, hzero]
    rfl
  have hfield : field w 6 0 = 0 := by
    rw [field_eq w (by decide)]
    omega
  rw [hfield] at hcode
  contradiction

namespace Machine

section Loaded

variable {t : Text} {config : MachineConfig} {m : Machine}

/-- Every fourth byte of a loaded program is not 0. -/
theorem exists_lastByte (herrors : (assemble t).hasErrors = false)
    (hsize : 4 * (assemble t).lines.length ≤ config.imemSize)
    (himem : m.imem = (Memory.zeros config.imemSize .big).load (assemble t).bytes) {k : Nat}
    (hk : k < (assemble t).lines.length) : ∃ b, m.imem.bytes[4 * k + 3]? = some b ∧ b ≠ 0 := by
  have hwords := (assemble t).length_words
  have hbytes := (assemble t).length_bytes
  obtain ⟨i, line, slot, op, -, -, -, -, -, hword⟩ := exists_encoded herrors hk
  have hop : (decode (assemble t).lines[k].word).op ≠ none := by
    rw [hword, op_decode_encode]
    exact Option.some_ne_none _
  refine ⟨_, ?_, lastByte_ne_zero hop⟩
  rw [himem, Memory.getElem?_load _ (by omega) (by rw [Memory.size_zeros]; omega), Program.bytes,
    Word.getElem?_flatMap_bigBytes _ (by omega)]
  simp only [Program.words, List.getElem_map]

/-- A word that is fetched at an even address inside the image is not 0. -/
theorem word_ne_zero_of_lt (herrors : (assemble t).hasErrors = false)
    (hsize : 4 * (assemble t).lines.length ≤ config.imemSize)
    (himem : m.imem = (Memory.zeros config.imemSize .big).load (assemble t).bytes)
    (heven : m.hart.pc.toNat % 2 = 0) (hin : m.hart.pc.toNat < 4 * (assemble t).lines.length) :
    m.word ≠ 0 := by
  obtain ⟨b, hb, hne⟩ := exists_lastByte herrors hsize himem
    (k := m.hart.pc.toNat / 4) (by omega)
  rw [Ne, m.word_eq_zero_iff]
  exact Memory.get_ne_zero hb hne (by omega) (by omega)

/-- No fetch inside the image of a program without errors gives the word 0, so a run that one stops
has left the image. -/
theorem zeroWord_outside (config : MachineConfig) (data : List Byte)
    (herrors : (assemble t).hasErrors = false)
    (hsize : 4 * (assemble t).lines.length ≤ config.imemSize) :
    let m := (reset config).load (assemble t).bytes data
    (∀ j m', Reaches m j m' → m'.Fetches →
        m'.hart.pc.toNat < 4 * (assemble t).lines.length → m'.word ≠ 0) ∧
      (m.run.2 = .zeroWord → 4 * (assemble t).lines.length ≤ m.run.1.hart.pc.toNat) := by
  intro m
  have hinside (j : Nat) (m' : Machine) (hreaches : Reaches m j m') (hfetches : m'.Fetches)
      (hin : m'.hart.pc.toNat < 4 * (assemble t).lines.length) : m'.word ≠ 0 :=
    word_ne_zero_of_lt herrors hsize hreaches.imem_eq
      (hreaches.even_pc rfl hfetches.running) hin
  refine ⟨hinside, ?_⟩
  intro hzeroWord
  obtain ⟨hfetches, hword⟩ := (run_snd_eq_iff m .zeroWord).1 hzeroWord
  obtain ⟨j, hreaches, -⟩ := m.exists_reaches_run
  by_contra hlt
  exact hinside j _ hreaches hfetches (not_le.1 hlt) hword

/-- A jump into the middle of the only word, which is read there with the zeros behind it. -/
theorem zeroWord_outside_jal :
    let t : Text := "jal x0, 2"
    let m := (reset {}).load (assemble t).bytes []
    (assemble t).hasErrors = false ∧ 4 * (assemble t).lines.length ≤ 256 ∧
      m.retire.hart.pc = 2 ∧ m.retire.word = 0x006F0000 ∧ m.run.2 = .zeroWord ∧
      4 * (assemble t).lines.length ≤ m.run.1.hart.pc.toNat := by
  intro t m
  have herrors : (assemble t).hasErrors = false := by decide +kernel
  have hsize : 4 * (assemble t).lines.length ≤ 256 := by decide +kernel
  have hfirst : m.halt? = none := by decide +kernel
  have hsecond : m.retire.halt? = none := by decide +kernel
  have hlast : m.retire.retire.halt? = some .zeroWord := by decide +kernel
  have hhalt : m.run.2 = .zeroWord := by
    rw [run_of_halt?_eq_none hfirst, run_of_halt?_eq_none hsecond, run_of_halt?_eq_some hlast]
  have hmiddle : m.retire.hart.pc = 2 ∧ m.retire.word = 0x006F0000 := by decide +kernel
  have houtside := (zeroWord_outside {} [] herrors hsize).2 hhalt
  exact ⟨herrors, hsize, hmiddle.1, hmiddle.2, hhalt, houtside⟩

end Loaded

end Machine

end RefHart
