import Mathlib
import RefHart.Proofs.Assembled
import RefHart.Proofs.OperandTexts

/-!
# Disassembled programs

**Lines.** The assembly text of an instruction is one line of source. It defines no label, and its
statement has the mnemonic and the operands as its tokens: a remark is a comment
(`statement?_text`).

**Programs.** Reading such lines one after the other finds a slot in each, no label and nothing to
report, and each slot is encoded as the canonical word of its line without a note (`ofLines_texts`). The
induction is on the lines from the last one back. That the labels stay empty is what it needs of the
lines before: any token could be the name of a label. So the text of a program is assembled to the
canonical words of its instructions (`assemble_texts`).
-/

namespace RefHart.Instruction

open Text (Printed Trimmed tokens)

/-! ## Operands in a row -/

section Operands

variable {operands : List Text} {name : Text}

theorem tokens_intercalate (h : ∀ t ∈ operands, Printed t) :
    tokens ([',', ' '].intercalate operands) = operands := by
  induction operands with
  | nil => rfl
  | cons t ts ih =>
    obtain ⟨ht, hts⟩ := List.forall_mem_cons.1 h
    cases ts with
    | nil => rw [List.intercalate_singleton, ht.tokens_eq]
    | cons t' ts =>
      rw [List.intercalate_cons_cons, List.append_assoc]
      calc tokens (t ++ ',' :: ' ' :: [',', ' '].intercalate (t' :: ts))
          = tokens t ++ tokens ([',', ' '].intercalate (t' :: ts)) := by
            rw [Text.tokens_append_cons _ _ (by decide), Text.tokens_cons _ (by decide)]
        _ = t :: t' :: ts := by rw [ih hts, ht.tokens_eq, List.singleton_append]

theorem intercalate_ne_nil (h : ∀ t ∈ operands, Printed t) (hne : operands ≠ []) :
    [',', ' '].intercalate operands ≠ [] := by
  intro hnil
  have htokens := tokens_intercalate h
  rw [hnil] at htokens
  exact hne htokens.symm

theorem trimmed_intercalate (h : ∀ t ∈ operands, Printed t) :
    Trimmed ([',', ' '].intercalate operands) := by
  induction operands with
  | nil => exact ⟨nofun, nofun⟩
  | cons t ts ih =>
    obtain ⟨ht, hts⟩ := List.forall_mem_cons.1 h
    cases ts with
    | nil => rw [List.intercalate_singleton]; exact ht.trimmed
    | cons t' ts =>
      rw [List.intercalate_cons_cons]
      exact ht.trimmed.append (ih hts) ht.1 (intercalate_ne_nil hts (List.cons_ne_nil t' ts)) _

theorem not_mem_intercalate (h : ∀ t ∈ operands, Printed t) {c : Char}
    (hc : Text.isPlain c = false) (hsep : c ∉ [',', ' ']) : c ∉ [',', ' '].intercalate operands := by
  induction operands with
  | nil => exact List.not_mem_nil
  | cons t ts ih =>
    obtain ⟨ht, hts⟩ := List.forall_mem_cons.1 h
    cases ts with
    | nil => rw [List.intercalate_singleton]; exact ht.not_mem hc
    | cons t' ts =>
      rw [List.intercalate_cons_cons, List.mem_append, List.mem_append, not_or, not_or]
      exact ⟨⟨ht.not_mem hc, hsep⟩, ih hts⟩

theorem joinOperands_of_ne_nil (h : operands ≠ []) :
    joinOperands operands = ' ' :: [',', ' '].intercalate operands := by
  cases operands with
  | nil => exact absurd rfl h
  | cons t ts => rfl

theorem tokens_joinOperands (hname : Printed name) (h : ∀ t ∈ operands, Printed t) :
    tokens (name ++ joinOperands operands) = name :: operands := by
  by_cases hnil : operands = []
  · rw [hnil, joinOperands, List.append_nil, hname.tokens_eq]
  · rw [joinOperands_of_ne_nil hnil, Text.tokens_append_cons _ _ (by decide), hname.tokens_eq,
      tokens_intercalate h, List.singleton_append]

theorem trimmed_joinOperands (hname : Printed name) (h : ∀ t ∈ operands, Printed t) :
    Trimmed (name ++ joinOperands operands) := by
  by_cases hnil : operands = []
  · rw [hnil, joinOperands, List.append_nil]
    exact hname.trimmed
  · rw [joinOperands_of_ne_nil hnil, ← List.singleton_append, ← List.append_assoc]
    exact hname.trimmed.append (trimmed_intercalate h) hname.1 (intercalate_ne_nil h hnil) [' ']

theorem not_mem_joinOperands (hname : Printed name) (h : ∀ t ∈ operands, Printed t) {c : Char}
    (hc : Text.isPlain c = false) (hsep : c ∉ [',', ' ']) : c ∉ name ++ joinOperands operands := by
  by_cases hnil : operands = []
  · rw [hnil, joinOperands, List.append_nil]
    exact hname.not_mem hc
  · have hspace : c ≠ ' ' := fun heq => hsep (by simp [heq])
    rw [joinOperands_of_ne_nil hnil, List.mem_append, List.mem_cons, not_or, not_or]
    exact ⟨hname.not_mem hc, hspace, not_mem_intercalate h hc hsep⟩

end Operands

/-! ## Lines -/

variable {w : Word} {op : Mnemonic}

/-- The text of an instruction without the remark. -/
def code (op : Mnemonic) (d : Instruction) : Text :=
  op.name ++ joinOperands (operandTexts op.format d)

theorem text_eq (h : (decode w).op = some op) :
    (decode w).text = code op (decode w) ++ remark op w := by
  rw [text, h]
  rfl

theorem tokens_code (op : Mnemonic) (d : Instruction) :
    tokens (code op d) = op.name :: operandTexts op.format d :=
  tokens_joinOperands op.printed_name (printed_operandTexts op.format d)

theorem trimmed_code (op : Mnemonic) (d : Instruction) : Trimmed (code op d) :=
  trimmed_joinOperands op.printed_name (printed_operandTexts op.format d)

theorem code_ne_nil (op : Mnemonic) (d : Instruction) : code op d ≠ [] :=
  List.append_ne_nil_of_left_ne_nil op.printed_name.1 _

theorem not_mem_code (op : Mnemonic) (d : Instruction) {c : Char} (hc : Text.isPlain c = false)
    (hsep : c ∉ [',', ' ']) : c ∉ code op d :=
  not_mem_joinOperands op.printed_name (printed_operandTexts op.format d) hc hsep

theorem not_mem_remark (op : Mnemonic) (raw : Word) {c : Char} (hc : Text.isPlain c = false)
    (hmark : c ∉ [' ', '/']) : c ∉ remark op raw := by
  rw [remark]
  split_ifs
  · have hall : (" // " : Text).all (· ∈ [' ', '/']) = true := by decide
    rw [List.mem_append, not_or]
    refine ⟨?_, (Numeral.printed_markedHex 8 raw.toNat).not_mem hc⟩
    intro hmem
    exact hmark (of_decide_eq_true (List.all_eq_true.1 hall c hmem))
  · exact List.not_mem_nil

theorem trimmed_text (h : (decode w).op = some op) : Trimmed (decode w).text := by
  rw [text_eq h, remark]
  split_ifs
  · rw [← List.append_assoc]
    exact (trimmed_code op _).append (Numeral.printed_markedHex 8 w.toNat).trimmed (code_ne_nil op _)
      (Numeral.printed_markedHex 8 w.toNat).1 _
  · rw [List.append_nil]
    exact trimmed_code op _

theorem trim_beforeComment_text (h : (decode w).op = some op) :
    Text.trim (Text.beforeComment (decode w).text) = code op (decode w) := by
  rw [text_eq h, Text.beforeComment_append (not_mem_code op _ (by decide) (by decide)), remark]
  split_ifs with hremark
  · -- The remark stands behind an `ecall`, which is all that is left of the line.
    obtain ⟨rfl, -⟩ := hremark
    rfl
  · rw [Text.beforeComment, List.append_nil, Text.trim_of_trimmed (trimmed_code op _)]

/-- A disassembled line defines no label. -/
theorem statement?_text (h : (decode w).op = some op) :
    Line.statement? (decode w).text = some ⟨none, code op (decode w), (decode w).text⟩ := by
  rw [Line.statement?, Text.trim_of_trimmed (trimmed_text h), Statement.ofTrimmed?,
    trim_beforeComment_text h]
  rw [if_neg (code_ne_nil op _), Text.cutAt?_of_not_mem (not_mem_code op _ (by decide) (by decide))]

theorem addLine_text (h : (decode w).op = some op) (s : Source) (number : Nat) :
    s.addLine ((decode w).text, number) =
      { s with
        address := s.address + 4
        slots := s.slots.push
          ⟨number, s.address, (decode w).text, op.name, some op,
            operandTexts op.format (decode w)⟩ } := by
  rw [Source.addLine_of_statement? s number _ _ (statement?_text h), Source.emit, Statement.content?,
    tokens_code]
  dsimp only
  rw [op.ofName?_name, if_neg (by simp)]

/-! ## Programs -/

/-- The lines of a disassembled program, read as source. -/
theorem ofLines_texts {ws : List Word} (h : ∀ w ∈ ws, (decode w).op.isSome) :
    let s := Source.ofLines (ws.map fun w => (decode w).text)
    s.labels = ∅ ∧ s.diagnostics = #[] ∧
      s.slots.toList.map (·.encode ∅) = ws.map fun w => pure (canonicalWord w) := by
  induction ws using List.reverseRecOn with
  | nil => exact ⟨rfl, rfl, rfl⟩
  | append_singleton ws w ih =>
    obtain ⟨hlabels, hdiagnostics, hslots⟩ := ih fun w hw => h w (List.mem_append_left _ hw)
    obtain ⟨op, hop⟩ := Option.isSome_iff_exists.1 (h w (by simp))
    rw [List.map_append, List.map_singleton, Source.ofLines_concat, addLine_text hop]
    refine ⟨hlabels, hdiagnostics, ?_⟩
    rw [Array.toList_push, List.map_append, hslots, List.map_append]
    exact congrArg (_ ++ [·]) (encode_operandTexts hop _)

theorem lines_texts {ws : List Word} (h : ∀ w ∈ ws, (decode w).op.isSome) :
    Text.lines (['\n'].intercalate (ws.map fun w => (decode w).text)) =
      ws.map fun w => (decode w).text := by
  apply Text.lines_intercalate
  intro line hline
  obtain ⟨w, hw, rfl⟩ := List.mem_map.1 hline
  obtain ⟨op, hop⟩ := Option.isSome_iff_exists.1 (h w hw)
  have hmem {c : Char} (hc : Text.isPlain c = false) (hsep : c ∉ [',', ' ']) (hmark : c ∉ [' ', '/']) :
      c ∉ (decode w).text := by
    rw [text_eq hop, List.mem_append, not_or]
    exact ⟨not_mem_code op _ hc hsep, not_mem_remark op w hc hmark⟩
  have hne : (decode w).text ≠ [] := by
    rw [text_eq hop]
    exact List.append_ne_nil_of_left_ne_nil (code_ne_nil op _) _
  exact ⟨hne, hmem (by decide) (by decide) (by decide), hmem (by decide) (by decide) (by decide)⟩

/-- Assembling the text of a program finds nothing to report and gives the canonical words. -/
theorem assemble_texts {ws : List Word} (h : ∀ w ∈ ws, (decode w).op.isSome) :
    let p := assemble (['\n'].intercalate (ws.map fun w => (decode w).text))
    p.diagnostics = [] ∧ p.labels = ∅ ∧ p.words = ws.map canonicalWord := by
  obtain ⟨hlabels, hdiagnostics, hslots⟩ := ofLines_texts h
  have herrors : ∀ slot ∈ (Source.ofLines (ws.map fun w => (decode w).text)).slots.toList,
      slot.diagnostics ∅ = [] := by
    intro slot hslot
    have hmem := List.mem_map_of_mem (f := fun slot : Slot => slot.encode ∅) hslot
    rw [hslots] at hmem
    obtain ⟨w, -, hencode⟩ := List.mem_map.1 hmem
    rw [Slot.diagnostics, ← hencode]
    rfl
  dsimp only
  rw [assemble, Source.ofText_eq_ofLines, lines_texts h]
  refine ⟨?_, hlabels, ?_⟩
  · rw [Source.diagnostics_assemble_eq_nil_iff, hlabels, hdiagnostics]
    exact ⟨rfl, herrors⟩
  · have hwords := congrArg (List.map Noted.value) hslots
    rw [List.map_map, List.map_map] at hwords
    rw [Program.words, Source.assemble, hlabels, List.map_map]
    exact hwords

end RefHart.Instruction
