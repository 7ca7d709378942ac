import Mathlib
import RefHart.Isa.Disassembly
import RefHart.Proofs.Canonical
import RefHart.Proofs.Numeral
import RefHart.Proofs.Text

/-!
# Printed operands

Disassembly prints every operand as one token: it is not empty, and none of its characters ends a
token, a label or a line or starts a comment (`printed_operandTexts`).

Assembly reads these tokens as the values of the fields that they were printed from
(`values?_operandTexts`), whatever the address is, as long as no label is defined: a label could have
any of these tokens as its name. A row of tokens that denotes values that fit is encoded without a note
(`encode_of_values?`), so printing, reading and encoding an instruction gives its canonical word
(`encode_operandTexts`).
-/

namespace RefHart

/-! ## Printed tokens -/

namespace Text

/-- Whether a character has no meaning of its own in a line of assembly source. -/
def isPlain (c : Char) : Bool := !(isSeparator c || c == ':' || c == '/')

/-- A nonempty text that assembly reads as a token wherever it stands. -/
def Printed (t : Text) : Prop := t ≠ [] ∧ t.all isPlain = true

theorem isPlain_toLower (c : Char) : isPlain c.toLower = isPlain c := by
  by_cases h : 'A'.val ≤ c.val ∧ c.val ≤ 'Z'.val
  · have hmin : 65 ≤ c.toNat := UInt32.le_iff_toNat_le.1 h.1
    have hmax : c.toNat ≤ 90 := UInt32.le_iff_toNat_le.1 h.2
    rw [← Char.ofNat_toNat c]
    interval_cases c.toNat <;> rfl
  · rw [Char.toLower, dif_neg h]

instance (t : Text) : Decidable t.Printed :=
  inferInstanceAs (Decidable (t ≠ [] ∧ t.all isPlain = true))

theorem printed_of_forall {t : Text} (hne : t ≠ []) (h : ∀ c ∈ t, isPlain c = true) : t.Printed :=
  ⟨hne, List.all_eq_true.2 h⟩

namespace Printed

variable {t : Text}

theorem not_mem (h : t.Printed) {c : Char} (hc : isPlain c = false) : c ∉ t := by
  intro hmem
  rw [List.all_eq_true.1 h.2 c hmem] at hc
  contradiction

theorem isSeparator_eq_false (h : t.Printed) : ∀ c ∈ t, isSeparator c = false := by
  intro c hc
  have hplain := List.all_eq_true.1 h.2 c hc
  rw [isPlain, Bool.not_eq_true', Bool.or_eq_false_iff, Bool.or_eq_false_iff] at hplain
  exact hplain.1.1

theorem append {a b : Text} (ha : a.Printed) (hb : b.Printed) : (a ++ b).Printed := by
  refine ⟨List.append_ne_nil_of_left_ne_nil ha.1 b, ?_⟩
  rw [List.all_append, ha.2, hb.2, Bool.and_self]

theorem tokens_eq (h : t.Printed) : tokens t = [t] := tokens_of_forall h.1 h.isSeparator_eq_false

theorem tokens_append (h : t.Printed) {rest : Text}
    (hrest : ∀ c ∈ rest.head?, isSeparator c = true) : tokens (t ++ rest) = t :: tokens rest := by
  cases rest with
  | nil => rw [List.append_nil, h.tokens_eq]; rfl
  | cons c rest =>
    have hc := hrest c rfl
    rw [tokens_append_cons t rest hc, h.tokens_eq, tokens_cons rest hc, List.singleton_append]

theorem trimmed (h : t.Printed) : Trimmed t :=
  trimmed_of_forall fun c hc => (Bool.or_eq_false_iff.1 (h.isSeparator_eq_false c hc)).2

theorem of_toLower (h : t.toLower.Printed) : t.Printed := by
  obtain ⟨hne, hall⟩ := h
  refine ⟨fun hnil => hne (by rw [hnil]; rfl), ?_⟩
  rw [toLower, List.all_map] at hall
  simpa only [Function.comp_def, isPlain_toLower] using hall

end Printed

end Text

open Text (Printed)

/-! ## Numbers and names as tokens -/

theorem Text.isPlain_digitChar {d : Nat} (h : d < 16) : isPlain d.digitChar = true := by
  interval_cases d <;> decide

namespace Numeral

theorem printed_decimal (n : Nat) : Printed (decimal n) := by
  refine Text.printed_of_forall (toDigits_ne_nil (by decide) n) ?_
  intro c hc
  obtain ⟨d, hd, rfl⟩ := exists_digit_of_mem_toDigits (by decide) hc
  exact Text.isPlain_digitChar (by omega)

theorem printed_signedDecimal (i : Int) : Printed (signedDecimal i) := by
  have hsign : Printed ['-'] := by decide
  rw [signedDecimal]
  split_ifs
  · exact hsign.append (printed_decimal _)
  · exact printed_decimal _

theorem printed_hex (width n : Nat) : Printed (hex width n) := by
  refine Text.printed_of_forall (hex_ne_nil width n) ?_
  intro c hc
  obtain ⟨d, hd, rfl⟩ := exists_digit_of_mem_hex hc
  exact Text.isPlain_digitChar hd

theorem printed_markedHex (width n : Nat) : Printed (markedHex width n) := by
  have hmark : Printed "0x" := by decide
  exact hmark.append (printed_hex width n)

end Numeral

theorem Csr.printed_text (address : Nat) : Printed (text address) := by
  have hnamed : ∀ entry ∈ named, Printed entry.1 := by decide
  rw [text]
  cases hname : name? address with
  | none => exact Numeral.printed_markedHex 3 address
  | some name =>
    obtain ⟨entry, hentry, rfl⟩ := Option.map_eq_some_iff.1 hname
    exact hnamed entry (List.mem_of_find?_eq_some hentry)

theorem Mnemonic.printed_name (op : Mnemonic) : Printed op.name := by
  cases op <;> decide

theorem Mnemonic.ofName?_name (op : Mnemonic) : ofName? op.name = some op := by
  cases op <;> rfl

namespace Instruction

/-! ## Operands as tokens -/

theorem printed_registerText (r : Nat) : Printed (registerText r) := by
  have hmark : Printed ['x'] := by decide
  exact hmark.append (Numeral.printed_decimal r)

theorem printed_immediateText (v : Word) : Printed (immediateText v) :=
  Numeral.printed_signedDecimal v.toInt

/-- A memory operand. -/
def memoryText (v : Word) (base : Nat) : Text := immediateText v ++ "(" ++ registerText base ++ ")"

theorem printed_memoryText (v : Word) (base : Nat) : Printed (memoryText v base) := by
  have hopen : Printed "(" := by decide
  have hclose : Printed ")" := by decide
  exact ((printed_immediateText v).append hopen |>.append (printed_registerText base)).append hclose

theorem operandTexts_load (d : Instruction) :
    operandTexts .load d = [registerText d.rd, memoryText d.imm d.rs1] := rfl

theorem operandTexts_s (d : Instruction) :
    operandTexts .s d = [registerText d.rs2, memoryText d.imm d.rs1] := rfl

theorem printed_operandTexts (format : Format) (d : Instruction) :
    ∀ t ∈ operandTexts format d, Printed t := by
  cases format with
  | load | s => simp [operandTexts_load, operandTexts_s, printed_registerText, printed_memoryText]
  | _ =>
    simp [operandTexts, printed_registerText, printed_immediateText, Csr.printed_text,
      Numeral.printed_markedHex, Numeral.printed_decimal]

/-! ## Operands read back -/

theorem ofToken?_registerText {r : Nat} (h : r < 32) :
    Register.ofToken? (registerText r) = some r := by
  have hall : ∀ r < 32, Register.ofToken? (registerText r) = some r := by decide
  exact hall r h

theorem literal?_immediateText (v : Word) : Operand.literal? (immediateText v) = some v.toInt := by
  have hle := BitVec.le_toInt v
  have hlt := BitVec.toInt_lt (x := v)
  exact Operand.literal?_signedDecimal (by rw [Operand.maxMagnitude]; omega)

theorem not_mem_immediateText (v : Word) : '(' ∉ immediateText v := by
  have hdigits (n : Nat) : '(' ∉ Numeral.decimal n := by
    intro hmem
    obtain ⟨d, hd, heq⟩ := Numeral.exists_digit_of_mem_toDigits (by decide) hmem
    interval_cases d <;> exact absurd heq (by decide)
  rw [immediateText, Numeral.signedDecimal]
  split_ifs
  · rw [List.mem_cons, not_or]
    exact ⟨by decide, hdigits _⟩
  · exact hdigits _

theorem memory?_memoryText (v : Word) {base : Nat} (h : base < 32) :
    Operand.memory? (memoryText v base) = some (immediateText v, base) := by
  have htoken : memoryText v base = immediateText v ++ '(' :: registerText base ++ [')'] := by
    simp [memoryText]
  rw [htoken, Operand.memory?, if_pos List.getLast?_concat, List.dropLast_concat,
    Text.cutAt?_append_cons (not_mem_immediateText v)]
  dsimp only
  rw [Text.trim_of_trimmed (printed_registerText base).trimmed,
    Text.trim_of_trimmed (printed_immediateText v).trimmed, ofToken?_registerText h, Option.map_some]

theorem immediate?_of_labels_eq_empty {o : Operands} (ho : o.labels = ∅) (t : Text) :
    o.immediate? t = Operand.literal? t := by
  rw [Operands.immediate?, ho, Std.TreeMap.getElem?_emptyc]

theorem memoryValue?_memoryText {o : Operands} (ho : o.labels = ∅) (v : Word) {base : Nat}
    (h : base < 32) : o.memoryValue? (memoryText v base) = some (v.toInt, base) := by
  rw [Operands.memoryValue?, memory?_memoryText v h]
  split
  · rename_i heq
    obtain ⟨hempty, -⟩ := Prod.mk.inj (Option.some.inj heq)
    exact absurd hempty (printed_immediateText v).1
  · rename_i heq
    obtain ⟨rfl, rfl⟩ := Prod.mk.inj (Option.some.inj heq)
    rw [immediate?_of_labels_eq_empty ho, literal?_immediateText, Option.map_some]
  · contradiction

/-- The operands of an instruction denote the values of its fields. -/
theorem values?_operandTexts (w : Word) (op : Mnemonic) (address : Word) :
    Operands.values? ⟨op, operandTexts op.format (decode w), ∅, address⟩ =
      some ((decode w).values op.format) := by
  obtain ⟨-, h2, h1, -, hd, -⟩ := fields_lt w
  have hrd : Register.ofToken? (registerText (decode w).rd) = some (decode w).rd :=
    ofToken?_registerText hd
  have hrs1 : Register.ofToken? (registerText (decode w).rs1) = some (decode w).rs1 :=
    ofToken?_registerText h1
  have hrs2 : Register.ofToken? (registerText (decode w).rs2) = some (decode w).rs2 :=
    ofToken?_registerText h2
  have hliteral {tokens : List Text} (t : Text) :
      Operands.immediate? ⟨op, tokens, ∅, address⟩ t = Operand.literal? t :=
    immediate?_of_labels_eq_empty rfl t
  have hmemory {tokens : List Text} :
      Operands.memoryValue? ⟨op, tokens, ∅, address⟩ (memoryText (decode w).imm (decode w).rs1) =
        some ((decode w).imm.toInt, (decode w).rs1) :=
    memoryValue?_memoryText rfl _ h1
  have hcsr : Csr.ofToken? (Csr.text ((decode w).raw >>> 20).toNat) =
      some ((decode w).raw >>> 20).toNat :=
    Csr.ofToken?_text (by rw [BitVec.toNat_ushiftRight, Nat.shiftRight_eq_div_pow]; omega)
  have hupper : Operand.literal? (Numeral.markedHex 1 ((decode w).imm >>> 12).toNat) =
      some (((decode w).imm >>> 12).toNat : Int) :=
    Operand.literal?_markedHex 1 (by rw [Operand.maxMagnitude]; omega)
  have hfive : Operand.literal? (Numeral.decimal (decode w).rs1) = some ((decode w).rs1 : Int) :=
    Operand.literal?_decimal (h1.le.trans (by decide))
  have hnumber {tokens : List Text} (v : Word) :
      Operands.immediate? ⟨op, tokens, ∅, address⟩ (immediateText v) = some v.toInt :=
    (hliteral _).trans (literal?_immediateText v)
  rw [Operands.values?_eq_some_iff]
  cases hf : op.format with
  | r => exact .registers hf rfl hrd hrs1 hrs2
  | i => exact .immediate hf rfl hrd hrs1 (hnumber _)
  | iShift => exact .shift hf rfl hrd hrs1 (hnumber _)
  | load => exact .load hf rfl hrd hmemory
  | s => exact .store hf rfl hrs2 hmemory
  | b => exact .branch hf rfl hrs1 hrs2 (hnumber _)
  | u => exact .upper hf rfl hrd ((hliteral _).trans hupper)
  | j => exact .jump hf rfl hrd (hnumber _)
  | csr => exact .csr hf rfl hrd hcsr hrs1
  | csrImm => exact .csrImmediate hf rfl hrd hcsr ((hliteral _).trans hfive)
  | system => exact .none hf rfl

/-- So they are encoded as the canonical word. -/
theorem encode_operandTexts {w : Word} {op : Mnemonic} (h : (decode w).op = some op)
    (address : Word) :
    encode op (operandTexts op.format (decode w)) ∅ address = pure (canonicalWord w) := by
  have hpseudo := isPseudo_of_op_decode h
  have hencode := Operands.encode_of_values? (values?_operandTexts w op address) (fits_values h)
  rw [encode, canonicalOperands, hpseudo, Mnemonic.canonical_of_isPseudo_eq_false hpseudo]
  exact hencode.trans (congrArg pure (canonicalWord_eq_pack h).symm)

end Instruction

end RefHart
