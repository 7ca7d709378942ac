import Mathlib
import RefHart.Image
import RefHart.Proofs.Layout
import RefHart.Proofs.Memory
import RefHart.Proofs.OperandTexts

/-!
# Machine code in images

**Theorem (`read_ofProgram`).** The image that the assembler writes for a source is read back as the
bytes of the program, and these as its words, whatever the source says.

The text of the source stands in the image, behind `//`. It comes from one line of the source, so it
holds no line feed, and it is trimmed, so no carriage return at its end is lost (`trimmed_source`).
Hence the lines of the image are the ones that were written, five for each word
(`lines_ofProgram`): a remark, which is passed over whatever stands in it (`readLine_remark`), and
four bytes in two digits each, which are read back (`readLine_byteText`).
-/

namespace RefHart

open Text (Printed Trimmed)

/-! ## Echoes -/

/-- The echo of a slot is a trimmed part of its line. -/
theorem Line.trimmed_echo {number : Nat} {address : Word} {line : Text} {slot : Slot}
    (h : slot? number address line = some slot) :
    Trimmed slot.echo ∧ ∀ c ∈ slot.echo, c ∈ line := by
  unfold slot? at h
  simp only [Option.bind_eq_bind, Option.bind_eq_some_iff] at h
  obtain ⟨st, hst, content, -, h⟩ := h
  split_ifs at h
  obtain rfl := Option.some.inj h
  show Trimmed st.echo ∧ ∀ c ∈ st.echo, c ∈ line
  rw [statement?, Statement.ofTrimmed?] at hst
  split_ifs at hst
  split at hst
  · rename_i name body hcut
    obtain rfl := Option.some.inj hst
    refine ⟨Text.trimmed_trim body, fun c hc => ?_⟩
    apply Text.mem_of_mem_trim
    apply (Text.prefix_beforeComment _).subset
    apply Text.mem_of_mem_trim
    rw [(Text.cutAt?_eq_some_iff.1 hcut).2]
    exact List.mem_append_right _ (List.mem_cons_of_mem _ (Text.mem_of_mem_trim hc))
  · obtain rfl := Option.some.inj hst
    exact ⟨Text.trimmed_trim line, fun c hc => Text.mem_of_mem_trim hc⟩

theorem trimmed_source {t : Text} {l : ProgramLine} (h : l ∈ (assemble t).lines) :
    Trimmed l.source ∧ '\n' ∉ l.source := by
  obtain ⟨slot, hslot, rfl⟩ := List.mem_map.1 h
  obtain ⟨k, hk⟩ := List.getElem?_of_mem hslot
  obtain ⟨-, i, line, hline, -, hread⟩ := Source.slots_ofLines (Text.lines t) k slot hk
  obtain ⟨htrimmed, hmem⟩ := Line.trimmed_echo hread
  exact ⟨htrimmed, fun hc => Text.not_mem_of_mem_lines (List.mem_of_getElem? hline) (hmem _ hc)⟩

namespace Image

/-! ## Bytes -/

theorem exists_digit_of_mem_byteText {b : Byte} {c : Char} (h : c ∈ byteText b) :
    ∃ d < 16, c = d.digitChar.toUpper := by
  obtain ⟨c', hc', rfl⟩ := List.mem_map.1 h
  obtain ⟨d, hd, rfl⟩ := Numeral.exists_digit_of_mem_hex hc'
  exact ⟨d, hd, rfl⟩

theorem length_byteText (b : Byte) : (byteText b).length = 2 := by
  have hdigits : (Nat.toDigits 16 b.toNat).length ≤ 2 :=
    (Nat.length_toDigits_le_iff (by decide) (by decide)).2 b.isLt
  rw [byteText, Text.toUpper, List.length_map, Numeral.hex, List.length_leftpad]
  omega

theorem printed_byteText (b : Byte) : Printed (byteText b) := by
  refine Text.printed_of_forall (List.ne_nil_of_length_pos (by rw [length_byteText]; decide)) ?_
  intro c hc
  obtain ⟨d, hd, rfl⟩ := exists_digit_of_mem_byteText hc
  interval_cases d <;> decide

/-- Two capital digits are read back as the byte that they were written for. -/
theorem byte?_byteText (b : Byte) : byte? (byteText b) = some b := by
  have hsize : (byteText b).utf8Length = 2 := by
    rw [Text.utf8Length_eq_length, length_byteText]
    intro c hc
    obtain ⟨d, hd, rfl⟩ := exists_digit_of_mem_byteText hc
    interval_cases d <;> decide
  have hnatural : Numeral.natural? 16 (byteText b) = some b.toNat := by
    rw [byteText, Numeral.natural?_toUpper, Numeral.natural?_hex]
  rw [byte?, if_pos hsize.le, Numeral.unsigned?_of_natural? hnatural, Option.map_some,
    BitVec.ofNat_toNat, BitVec.setWidth_eq]

/-! ## Lines -/

theorem isRemark_of_not_mem {t : Text} (hne : t ≠ []) (h : '/' ∉ t) : isRemark t = false := by
  rw [isRemark, Bool.or_eq_false_iff]
  refine ⟨beq_eq_false_iff_ne.2 hne, ?_⟩
  rw [Text.dropLeading?, if_neg]
  · rfl
  · intro hprefix
    have hslash : '/' ∈ ("//" : Text) := by decide
    exact h ((List.isPrefixOf_iff_prefix.1 hprefix).subset hslash)

theorem readLine_byteText (b : Byte) (number : Nat) :
    readLine (byteText b, number) = .ok (some b) := by
  have hprinted := printed_byteText b
  have hremark : isRemark (byteText b) = false :=
    isRemark_of_not_mem hprinted.1 (hprinted.not_mem (by decide))
  rw [readLine, Text.trim_of_trimmed hprinted.trimmed]
  dsimp only
  rw [hremark, byte?_byteText]
  rfl

/-- A remark says nothing, whatever stands in it. -/
theorem readLine_remark (t : Text) (number : Nat) : readLine ("// " ++ t, number) = .ok none := by
  have hslash : Text.isBlank '/' = false := by decide
  have hmark : Trimmed "//" := Text.trimmed_of_forall (by simp [hslash])
  obtain ⟨t', ht'⟩ := Text.exists_trim_append hmark (by decide) (' ' :: t)
  rw [readLine]
  dsimp only
  rw [show Text.trim ("// " ++ t) = "//" ++ t' from ht']
  rfl

/-- The lines are read as the given bytes, of which a remark is none, wherever they stand. -/
def Reads (ls : List Text) (bytes : List (Option Byte)) : Prop :=
  ∀ n, (ls.zipIdx n).mapM readLine = .ok bytes

theorem Reads.append {ls ls' : List Text} {bytes bytes' : List (Option Byte)} (h : Reads ls bytes)
    (h' : Reads ls' bytes') : Reads (ls ++ ls') (bytes ++ bytes') := by
  intro n
  rw [List.zipIdx_append, List.mapM_append, h n, h' (n + ls.length)]
  rfl

theorem Reads.cons {l : Text} {b? : Option Byte} {ls : List Text} {bytes : List (Option Byte)}
    (hl : ∀ n, readLine (l, n) = .ok b?) (h : Reads ls bytes) : Reads (l :: ls) (b? :: bytes) := by
  intro n
  rw [List.zipIdx_cons, List.mapM_cons, hl n, h (n + 1)]
  rfl

theorem reads_byteTexts (bytes : List Byte) : Reads (bytes.map byteText) (bytes.map some) := by
  induction bytes with
  | nil => exact fun _ => rfl
  | cons b bytes ih => exact .cons (readLine_byteText b) ih

theorem reads_flatMap_wordLines (ls : List ProgramLine) :
    Reads (ls.flatMap wordLines) (ls.flatMap fun l => none :: l.word.bigBytes.map some) := by
  induction ls with
  | nil => exact fun _ => rfl
  | cons l ls ih => exact (Reads.cons (readLine_remark l.source) (reads_byteTexts _)).append ih

/-! ## Programs -/

/-- Lines that hold no line break are found again in the image. -/
theorem lines_ofProgram {p : Program} (h : ∀ l ∈ p.lines, Trimmed l.source ∧ '\n' ∉ l.source) :
    Text.lines (ofProgram p) = p.lines.flatMap wordLines := by
  refine Text.lines_flatMap fun line hline => ?_
  obtain ⟨l, hl, hline⟩ := List.mem_flatMap.1 hline
  obtain ⟨htrimmed, hfeed⟩ := h l hl
  rcases List.mem_cons.1 hline with rfl | hbyte
  · refine ⟨?_, ?_⟩
    · rw [List.mem_append, not_or]
      exact ⟨by decide, hfeed⟩
    · intro hlast
      rw [List.getLast?_append] at hlast
      cases hend : l.source.getLast? with
      | none =>
        rw [hend] at hlast
        exact absurd hlast (by decide)
      | some c =>
        -- The source is trimmed, and a carriage return is blank.
        rw [hend, Option.some_or, Option.some.injEq] at hlast
        have hblank := htrimmed.2 c hend
        rw [hlast] at hblank
        exact absurd hblank (by decide)
  · obtain ⟨b, -, rfl⟩ := List.mem_map.1 hbyte
    have hprinted := printed_byteText b
    exact ⟨hprinted.not_mem (by decide),
      fun hlast => hprinted.not_mem (by decide) (List.mem_of_getLast? hlast)⟩

theorem words_flatMap_bigBytes (ws : List Word) : words (ws.flatMap Word.bigBytes) = ws := by
  induction ws with
  | nil => rfl
  | cons w ws ih =>
    have hword : Word.ofBigBytes w.bigBytes = w := by
      rw [Word.ofBigBytes, Word.value_bigBytes, BitVec.ofNat_toNat, BitVec.setWidth_eq]
    calc words (w.bigBytes ++ ws.flatMap Word.bigBytes)
        = Word.ofBigBytes w.bigBytes :: words (ws.flatMap Word.bigBytes) := rfl
      _ = w :: ws := by rw [hword, ih]

/-- The image of an assembled source is read back as the bytes of the program. -/
theorem read_image (t : Text) : read (ofProgram (assemble t)) = .ok (assemble t).bytes := by
  rw [read, lines_ofProgram fun l hl => trimmed_source hl, reads_flatMap_wordLines _ 1,
    Program.bytes, Program.words, List.flatMap_map]
  simp [Except.map, List.filterMap_flatMap]

/-- The image of a program holds its bytes and words, five lines to a word. -/
theorem read_ofProgram (t : Text) :
    let p := assemble t
    read (ofProgram p) = .ok p.bytes ∧ words p.bytes = p.words ∧
      Text.lines (ofProgram p) = p.lines.flatMap wordLines ∧
      (Text.lines (ofProgram p)).length = 5 * p.lines.length := by
  intro p
  have hlines : Text.lines (ofProgram p) = p.lines.flatMap wordLines :=
    lines_ofProgram fun l hl => trimmed_source hl
  refine ⟨read_image t, words_flatMap_bigBytes p.words, hlines, ?_⟩
  · have hfive (l : ProgramLine) : (wordLines l).length = 5 := rfl
    rw [hlines]
    simp [List.length_flatMap, hfive, Nat.mul_comm]

end Image

end RefHart
