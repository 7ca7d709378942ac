import Mathlib
import RefHart.Proofs.Effects
import RefHart.Proofs.InPlace
import RefHart.Proofs.Listing

/-!
# Disassembling, then assembling

Assembling the text of a claimed word gives its canonical word. That is the word itself if encoding
could have given it, and else a word that stands for the same instruction.

**Theorem (`assemble_disassembled`).** A list of claimed words is printed as a program without
diagnostics and labels, and assembled to the list of the canonical words. What encoding gives is
reproduced.

**Theorem (`execute_reassembled`).** The word that comes back does to every machine what the word
does, traps included. Both instructions carry the same operand values, and the effect of an instruction
depends on nothing else.

**Theorem (`reassembles_iff`).** The word comes back as it was exactly if it has the bits of the encoding
table. Only an `ecall` that does not is marked by a comment.
-/

namespace RefHart.Instruction

variable {w : Word} {op : Mnemonic}

/-! ## Words of programs -/

theorem assemble_text (h : (decode w).op = some op) :
    (assemble (decode w).text).diagnostics = [] ∧
      (assemble (decode w).text).words = [canonicalWord w] := by
  have hclaimed : ∀ w' ∈ [w], (decode w').op.isSome := by
    rw [List.forall_mem_singleton, h, Option.isSome_some]
  obtain ⟨hdiagnostics, -, hwords⟩ := assemble_texts hclaimed
  rw [List.map_singleton, List.intercalate_singleton] at hdiagnostics hwords
  exact ⟨hdiagnostics, hwords⟩

/-- Assembling a disassembled program gives the canonical words of what was disassembled; what
encoding gives is canonical. -/
theorem assemble_disassembled (ws : List Word) (h : ∀ w ∈ ws, (decode w).op.isSome) :
    let p := assemble (['\n'].intercalate (ws.map fun w => (decode w).text))
    (p.diagnostics = [] ∧ p.labels = ∅ ∧ p.words = ws.map canonicalWord) ∧
      (∀ w, canonicalWord (canonicalWord w) = canonicalWord w ∧
        (decode (canonicalWord w)).op = (decode w).op) ∧
      ∀ m tokens labels address,
        let word := (encode m tokens labels address).value
        canonicalWord word = word ∧ (assemble (decode word).text).words = [word] := by
  refine ⟨assemble_texts h, fun w => ⟨canonicalWord_canonicalWord w, op_canonicalWord w⟩, ?_⟩
  intro m tokens labels address word
  have hword : canonicalWord word = word := canonicalWord_encode m tokens labels address
  refine ⟨hword, ?_⟩
  rw [(assemble_text (op_decode_encode m tokens labels address)).2, hword]

/-- Four words that no encoding gives: an `add`, an `srai`, a `jalr` and an `ecall`. -/
theorem assemble_disassembled_lenient :
    (∀ w ∈ ([0x0AB50533, 0xFFF0D093, 0x00003067, 0x00200073] : List Word), (decode w).op.isSome) ∧
      (assemble (['\n'].intercalate (([0x0AB50533, 0xFFF0D093, 0x00003067, 0x00200073] : List Word).map
        fun w => (decode w).text))).words = [0x00B50533, 0x41F0D093, 0x00000067, 0x00000073] :=
  have h : ∀ w ∈ ([0x0AB50533, 0xFFF0D093, 0x00003067, 0x00200073] : List Word),
      (decode w).op.isSome := List.all_eq_true.1 (by decide)
  ⟨h, (assemble_disassembled _ h).1.2.2.trans (by decide)⟩

/-! ## What the words do -/

theorem effect_canonicalWord (h : (decode w).op = some op) (hart : Hart) :
    hart.effect (decode (canonicalWord w)) = hart.effect (decode w) := by
  have hformat := format_values (decode w) op.format
  have hpseudo := isPseudo_of_op_decode h
  have hcarries : (decode (canonicalWord w)).Carries ((decode w).values op.format) := by
    rw [canonicalWord_eq_pack h]
    exact carries_decode_pack hformat (fits_values h) (valid_values op.format)
  have hop : (decode (canonicalWord w)).op = some op := (op_canonicalWord w).trans h
  rw [effect_of_carries hop hpseudo hformat hcarries,
    effect_of_carries h hpseudo hformat (carries_values h)]

/-- The word that comes back from its text does to every machine what the word does. -/
theorem execute_reassembled (h : (decode w).op.isSome) :
    ∃ w', (assemble (decode w).text).diagnostics = [] ∧ (assemble (decode w).text).words = [w'] ∧
      (∀ (hart : Hart) (memory : Memory),
        hart.execute memory (decode w') = hart.execute memory (decode w)) ∧
      ∀ m : Machine, InPlace.execute (decode w') m = InPlace.execute (decode w) m := by
  obtain ⟨op, hop⟩ := Option.isSome_iff_exists.1 h
  obtain ⟨hdiagnostics, hwords⟩ := assemble_text hop
  refine ⟨canonicalWord w, hdiagnostics, hwords, ?_, ?_⟩
  · intro hart memory
    rw [Hart.execute, Hart.execute, Hart.fault?, Hart.fault?, effect_canonicalWord hop]
  · intro m
    rw [InPlace.execute_eq_settle, InPlace.execute_eq_settle, effect_canonicalWord hop]

/-- An `srai` with more bits in `funct7` than the one that makes it arithmetic. -/
theorem execute_reassembled_srai :
    (decode 0xFFF0D093).op = some .srai ∧
      ∃ w', w' ≠ 0xFFF0D093 ∧ (assemble (decode 0xFFF0D093).text).words = [w'] ∧
        ∀ m : Machine, InPlace.execute (decode w') m = InPlace.execute (decode 0xFFF0D093) m := by
  have hop : (decode 0xFFF0D093).op = some .srai := by decide
  obtain ⟨w', -, hwords, -, hexecute⟩ := execute_reassembled (w := 0xFFF0D093) (by decide)
  refine ⟨hop, w', ?_, hwords, hexecute⟩
  rintro rfl
  rw [(assemble_text hop).2] at hwords
  exact absurd hwords (by decide)

/-! ## Words that come back -/

theorem infix_text_iff (h : (decode w).op = some op) :
    ['/', '/'] <:+: (decode w).text ↔ op = .ecall ∧ w ≠ 0x73 := by
  rw [text_eq h, remark]
  split_ifs with hremark
  · refine iff_of_true ?_ hremark
    exact ⟨code op (decode w) ++ [' '], ' ' :: Numeral.markedHex 8 w.toNat, by simp⟩
  · refine iff_of_false ?_ hremark
    intro hinfix
    have hmem : '/' ∈ code op (decode w) := by simpa using hinfix.subset (List.mem_cons_self)
    exact not_mem_code op _ (by decide) (by decide) hmem

/-- A word is reproduced from its text exactly if it has the bits of the encoding table; of the
other words only those of `ecall` are marked. -/
theorem reassembles_iff (h : (decode w).op = some op) :
    (assemble (decode w).text).diagnostics = [] ∧
      ((assemble (decode w).text).words = [w] ↔ HasTableBits op w) ∧
      (['/', '/'] <:+: (decode w).text ↔ op = .ecall ∧ ¬ HasTableBits op w) := by
  obtain ⟨hdiagnostics, hwords⟩ := assemble_text h
  refine ⟨hdiagnostics, ?_, ?_⟩
  · rw [hwords, ← canonicalWord_eq_self_iff h]
    exact ⟨fun heq => List.head_eq_of_cons_eq heq, fun heq => by rw [heq]⟩
  · rw [infix_text_iff h]
    exact and_congr_right fun hecall => by rw [hecall]; exact Iff.rfl

/-- An `ebreak` with a destination register comes back without it, and nothing marks the text. -/
theorem reassembles_iff_ebreak :
    (decode 0x001000F3).op = some .ebreak ∧ (assemble (decode 0x001000F3).text).words ≠ [0x001000F3] ∧
      ¬ ['/', '/'] <:+: (decode 0x001000F3).text := by
  have hop : (decode 0x001000F3).op = some .ebreak := by decide
  obtain ⟨-, hwords, hmark⟩ := reassembles_iff hop
  refine ⟨hop, ?_, ?_⟩
  · rw [ne_eq, hwords]
    exact fun htable : (0x001000F3 : Word) = 0x00100073 => absurd htable (by decide)
  · rw [hmark]
    exact fun hecall => absurd hecall.1 (by decide)

end RefHart.Instruction
