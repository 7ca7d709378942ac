import Mathlib
import RefHart.Proofs.Images

/-!
# What a dump tells

**Theorem (`dumps_identify`).** Two dumps are equal only if the registers or the memories are. A dump
has a line for each element behind its two header lines, from which the index and the value of the
element are read back. So two dumps that are compared line by line differ on the lines of those elements
that differ, or that only one of them has, and on no other line.

Both dumps are one function of a row of numbers (`dump`), with their own header lines and their own
number of digits. A line determines its number, since it is read back (`readDumpLine?_dumpLine`), and
the lines of the text are those that were written (`lines_dump`).
-/

namespace RefHart

/-- Two texts differ on the line with the given number, counted from 1; one of them may have no such
line. -/
def Text.DifferAt (t t' : Text) (number : Nat) : Prop :=
  (lines t)[number - 1]? ≠ (lines t')[number - 1]?

namespace Image

variable {width : Nat} {header : List Text}

/-! ## Single lines -/

/-- Reads the index and the value in a line of a dump. -/
def readDumpLine? (t : Text) : Option (Nat × Nat) := do
  let (index, value) ← Text.cutAt? ']' (← Text.dropLeading? "[" t)
  return (← Numeral.natural? 10 index, ← Numeral.natural? 16 (← Text.dropLeading? " " value))

theorem dumpLine_eq (width n i : Nat) :
    dumpLine width (n, i) = '[' :: (Numeral.decimal i ++ ']' :: ' ' :: Numeral.hex width n) := by
  simp [dumpLine]

/-- A line is read back as the index and the value that it was written for. -/
theorem readDumpLine?_dumpLine (width n i : Nat) :
    readDumpLine? (dumpLine width (n, i)) = some (i, n) := by
  have hopen (t : Text) : Text.dropLeading? "[" ('[' :: t) = some t := rfl
  have hblank (t : Text) : Text.dropLeading? " " (' ' :: t) = some t := rfl
  have hdigits : ']' ∉ Numeral.decimal i := fun hmem =>
    absurd (Numeral.isDigit_of_mem_toDigits (by decide) (by decide) hmem) (by decide)
  rw [readDumpLine?, dumpLine_eq, hopen]
  simp only [Option.bind_eq_bind, Option.bind_some, Text.cutAt?_append_cons hdigits, hblank,
    Numeral.natural?_decimal, Numeral.natural?_hex]
  rfl

theorem not_mem_dumpLine (width n i : Nat) {c : Char} (hc : Text.isPlain c = false)
    (hblank : c ≠ ' ') : c ∉ dumpLine width (n, i) := by
  have hdecimal := (Numeral.printed_decimal i).not_mem hc
  have hhex := (Numeral.printed_hex width n).not_mem hc
  have hopen : c ≠ '[' := by
    rintro rfl
    exact absurd hc (by decide)
  have hclose : c ≠ ']' := by
    rintro rfl
    exact absurd hc (by decide)
  simp [dumpLine_eq, *]

/-! ## Dumps of numbers -/

/-- The dump of a row of numbers, each in at least `width` digits. -/
def dump (header : List Text) (width : Nat) (numbers : List Nat) : Text :=
  (header ++ numbers.zipIdx.map (dumpLine width)).flatMap line

/-- Two lines without a line break. -/
structure IsHeader (header : List Text) : Prop where
  length : header.length = 2
  unbroken : ∀ t ∈ header, '\n' ∉ t ∧ '\r' ∉ t

theorem isHeader_registerHeader : IsHeader registerHeader := ⟨rfl, by decide⟩

theorem isHeader_memoryHeader : IsHeader memoryHeader := ⟨rfl, by decide⟩

/-- Behind a header, the text has one line for each number, from which its index and the number are
read back. -/
def Tabulates (t : Text) (header : List Text) (numbers : List Nat) : Prop :=
  ∃ rows, Text.lines t = header ++ rows ∧
    rows.map readDumpLine? = numbers.zipIdx.map fun numbered => some (numbered.2, numbered.1)

section

variable (h : IsHeader header) (numbers numbers' : List Nat)
include h

/-- The lines of a dump are the lines of the header and one for each number. -/
theorem lines_dump :
    Text.lines (dump header width numbers) = header ++ numbers.zipIdx.map (dumpLine width) := by
  refine Text.lines_flatMap fun t ht => ?_
  have hunbroken : '\n' ∉ t ∧ '\r' ∉ t := by
    rcases List.mem_append.1 ht with ht | ht
    · exact h.unbroken t ht
    · obtain ⟨⟨n, i⟩, -, rfl⟩ := List.mem_map.1 ht
      exact ⟨not_mem_dumpLine width n i (by decide) (by decide),
        not_mem_dumpLine width n i (by decide) (by decide)⟩
  exact ⟨hunbroken.1, fun hlast => hunbroken.2 (List.mem_of_getLast? hlast)⟩

theorem tabulates_dump : Tabulates (dump header width numbers) header numbers := by
  refine ⟨numbers.zipIdx.map (dumpLine width), lines_dump h numbers, ?_⟩
  rw [List.map_map]
  exact List.map_congr_left fun numbered _ => readDumpLine?_dumpLine width numbered.1 numbered.2

theorem getElem?_lines_dump (i : Nat) :
    (Text.lines (dump header width numbers))[i + 2]? =
      numbers[i]?.map fun n => dumpLine width (n, i) := by
  rw [lines_dump h, List.getElem?_append_right (by rw [h.length]; omega), h.length,
    Nat.add_sub_cancel, List.getElem?_map, List.getElem?_zipIdx, Option.map_map]
  simp [Function.comp_def]

/-- Two dumps differ on the lines of those numbers that differ, and on no other line. -/
theorem differAt_dump_iff (number : Nat) :
    Text.DifferAt (dump header width numbers) (dump header width numbers') number ↔
      ∃ i, number = i + 3 ∧ numbers[i]? ≠ numbers'[i]? := by
  rcases Nat.lt_or_ge number 3 with hlt | hge
  · -- A line of the header.
    have hin : number - 1 < header.length := by rw [h.length]; omega
    rw [Text.DifferAt, lines_dump h, lines_dump h, List.getElem?_append_left hin,
      List.getElem?_append_left hin]
    refine iff_of_false (fun hne => hne rfl) ?_
    rintro ⟨i, rfl, -⟩
    omega
  · obtain ⟨i, rfl⟩ := Nat.exists_eq_add_of_le' hge
    have hinjective : Function.Injective fun n => dumpLine width (n, i) := by
      intro n n' heq
      have hread := congrArg readDumpLine? heq
      simp only [readDumpLine?_dumpLine, Option.some.injEq, Prod.mk.injEq, true_and] at hread
      exact hread
    show (Text.lines _)[i + 2]? ≠ (Text.lines _)[i + 2]? ↔ _
    rw [getElem?_lines_dump h, getElem?_lines_dump h, (Option.map_injective hinjective).ne_iff]
    constructor
    · intro hne
      exact ⟨i, rfl, hne⟩
    · rintro ⟨j, hj, hne⟩
      obtain rfl := Nat.add_right_cancel hj
      exact hne

theorem dump_inj :
    dump header width numbers = dump header width numbers' ↔ numbers = numbers' := by
  refine ⟨fun heq => List.ext_getElem? fun i => ?_, congrArg _⟩
  by_contra hne
  have hdiffer : Text.DifferAt (dump header width numbers) (dump header width numbers') (i + 3) :=
    (differAt_dump_iff h numbers numbers' (i + 3)).2 ⟨i, rfl, hne⟩
  rw [heq] at hdiffer
  exact hdiffer rfl

end

/-! ## Dumps of registers and memories -/

/-- What a dump tells of a row of machine numbers. -/
theorem dump_identifies (width : Nat) (h : IsHeader header) {bits : Nat}
    (row row' : List (BitVec bits)) :
    (dump header width (row.map BitVec.toNat) = dump header width (row'.map BitVec.toNat) ↔
        row = row') ∧
      ∀ number, Text.DifferAt (dump header width (row.map BitVec.toNat))
          (dump header width (row'.map BitVec.toNat)) number ↔
        ∃ i, number = i + 3 ∧ row[i]? ≠ row'[i]? := by
  have hinjective : Function.Injective (BitVec.toNat (w := bits)) := fun _ _ => BitVec.eq_of_toNat_eq
  refine ⟨?_, fun number => ?_⟩
  · rw [dump_inj h, (List.map_injective_iff.2 hinjective).eq_iff]
  · simp only [differAt_dump_iff h, List.getElem?_map, (Option.map_injective hinjective).ne_iff]

/-- Two dumps are the same exactly for the same registers or bytes, and they differ in the lines of
those that differ. -/
theorem dumps_identify :
    (∀ r r' : Vector Word 32,
      Tabulates (dumpRegisters r.toList) registerHeader (r.toList.map BitVec.toNat) ∧
        (dumpRegisters r.toList = dumpRegisters r'.toList ↔ r = r') ∧
        ∀ number, Text.DifferAt (dumpRegisters r.toList) (dumpRegisters r'.toList) number ↔
          ∃ i, number = i + 3 ∧ r[i]? ≠ r'[i]?) ∧
      (∀ m m' : List Byte,
        Tabulates (dumpMemory m) memoryHeader (m.map BitVec.toNat) ∧
          (dumpMemory m = dumpMemory m' ↔ m = m') ∧
          ∀ number, Text.DifferAt (dumpMemory m) (dumpMemory m') number ↔
            ∃ i, number = i + 3 ∧ m[i]? ≠ m'[i]?) ∧
      registerHeader.length = 2 ∧ memoryHeader.length = 2 := by
  refine ⟨fun r r' => ?_, fun m m' => ?_, rfl, rfl⟩
  · obtain ⟨hequal, hdiffer⟩ := dump_identifies 8 isHeader_registerHeader r.toList r'.toList
    refine ⟨tabulates_dump isHeader_registerHeader _, ?_, fun number => ?_⟩
    · exact hequal.trans Vector.toList_inj
    · refine (hdiffer number).trans ?_
      simp only [Vector.getElem?_toList]
  · obtain ⟨hequal, hdiffer⟩ := dump_identifies 2 isHeader_memoryHeader m m'
    exact ⟨tabulates_dump isHeader_memoryHeader _, hequal, hdiffer⟩

end Image

end RefHart
