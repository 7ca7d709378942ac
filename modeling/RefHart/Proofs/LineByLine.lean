import Mathlib
import RefHart.Proofs.Assembled
import RefHart.Proofs.Rows
import RefHart.Proofs.Text

/-!
# Assembling line by line

A source is read once, its slots are encoded in a second pass, and what both passes noted is sorted
by the number of the line. All the same, what a line adds to the program only depends on the lines
before it and on the label table.

**Theorem (`assembledByLine_assemble`).** The words and the diagnostics of a program are those of
its lines, one line after the other. A line adds first what is wrong with it as a line and then what
is wrong with the operands of its slot. The label table holds the last definition of every name.

What the first pass collects is worked out by induction on the lines, from the last one on. For the
order of the diagnostics it is enough that both passes number them by their lines
(`mergeSort_lineByLine`).
-/

namespace RefHart

/-! ## What a line says by itself -/

namespace Line

/-- The name before the first colon of a line, comments apart. -/
def name? (line : Text) : Option Text :=
  (Text.cutAt? ':' (Text.beforeComment line)).map fun parts => Text.trim parts.1

/-- What is wrong with a line whatever the other lines are: a label without a name, or a line
without a label that starts with no mnemonic. -/
def flaw? (line : Text) : Option AssemblyError :=
  match name? line with
  | some name => if name = [] then some .emptyLabel else none
  | none =>
    ((Text.tokens (Text.beforeComment line)).head?.filter fun head =>
      Mnemonic.ofName? head = none).map .unknownMnemonic

/-- The statement of a line, read from what precedes the comment. -/
theorem statement?_eq (line : Text) :
    statement? line =
      if Text.trim (Text.beforeComment line) = [] then none
      else match Text.cutAt? ':' (Text.trim (Text.beforeComment line)) with
        | some (name, body) => some ⟨some (Text.trim name), Text.trim body, Text.trim body⟩
        | none => some ⟨none, Text.trim (Text.beforeComment line), Text.trim line⟩ := by
  rw [← Text.trim_beforeComment_trim]
  rfl

theorem name?_eq (line : Text) :
    name? line = (Text.cutAt? ':' (Text.trim (Text.beforeComment line))).map fun parts =>
      Text.trim parts.1 :=
  (Text.map_trim_cutAt?_trim (by decide) _).symm

theorem bind_label?_statement? (line : Text) : (statement? line).bind (·.label?) = name? line := by
  rw [statement?_eq, name?_eq]
  split_ifs with hnil
  · rw [hnil]
    rfl
  · cases Text.cutAt? ':' (Text.trim (Text.beforeComment line)) <;> rfl

theorem label?_eq (line : Text) : label? line = (name? line).filter (· ≠ []) := by
  rw [label?, bind_label?_statement?]

theorem label?_eq_some_iff {line name : Text} :
    label? line = some name ↔
      name ≠ [] ∧ ∃ a b, Text.cutAt? ':' (Text.beforeComment line) = some (a, b) ∧
        Text.trim a = name := by
  rw [label?_eq, Option.filter_eq_some_iff, name?, and_comm]
  simp

theorem flaw?_of_statement?_eq_none {line : Text} (h : statement? line = none) :
    flaw? line = none := by
  have hnil : Text.trim (Text.beforeComment line) = [] := by
    by_contra hne
    rw [statement?_eq, if_neg hne] at h
    split at h <;> contradiction
  have hname : name? line = none := by
    rw [name?_eq, hnil]
    rfl
  rw [flaw?, hname, ← Text.tokens_trim, hnil]
  rfl

theorem flaw?_of_statement? {line : Text} {st : Statement} (h : statement? line = some st) :
    flaw? line =
      match st.label? with
      | some name => if name = [] then some .emptyLabel else none
      | none =>
        (st.content?.filter fun content => Mnemonic.ofName? content.1 = none).map fun content =>
          .unknownMnemonic content.1 := by
  have hname : name? line = st.label? := by rw [← bind_label?_statement?, h, Option.bind_some]
  rw [flaw?, hname]
  cases hlabel : st.label? with
  | some name => rfl
  | none =>
    have hbody : st.body = Text.trim (Text.beforeComment line) := by
      rw [statement?_eq] at h
      split_ifs at h
      split at h
      · obtain rfl := Option.some.inj h
        contradiction
      · obtain rfl := Option.some.inj h
        rfl
    dsimp only
    rw [Statement.content?, hlabel, hbody, Text.tokens_trim]
    cases Text.tokens (Text.beforeComment line) with
    | nil => rfl
    | cons head operands =>
      rw [List.head?_cons, Option.filter_some, Option.filter_some]
      split_ifs <;> rfl

end Line

/-! ## What a line says after the lines before it -/

/-- The labels that the lines define, in order, each with the address of the next slot. -/
def definitions : List Text → List (Text × Word) :=
  lineByLine fun before line =>
    (Line.label? line).toList.map fun name =>
      (name, BitVec.ofNat 32 (4 * before.countP Line.takesSlot))

/-- The address of a label after some lines: that of its last definition. -/
def addressOf? (lines : List Text) (name : Text) : Option Word :=
  ((definitions lines).findRev? (·.1 = name)).map (·.2)

theorem addressOf?_concat (lines : List Text) (line name : Text) :
    addressOf? (lines ++ [line]) name =
      if Line.label? line = some name then
        some (BitVec.ofNat 32 (4 * lines.countP Line.takesSlot))
      else addressOf? lines name := by
  rw [addressOf?, addressOf?, definitions, lineByLine_concat, List.findRev?_eq_find?_reverse,
    List.findRev?_eq_find?_reverse, List.reverse_append, List.find?_append]
  cases Line.label? line with
  | none => rfl
  | some other =>
    by_cases hname : other = name <;> simp [hname]

namespace Line

variable (before : List Text) (line : Text)

/-- The slot that a line takes. -/
def slotAfter? : Option Slot :=
  slot? (before.length + 1) (BitVec.ofNat 32 (4 * before.countP takesSlot)) line

/-- The note that the label of a line has an address already. -/
def redefinition? : Option AssemblyError :=
  (label? line).bind fun name => (addressOf? before name).map (AssemblyError.duplicateLabel name)

/-- A problem that a line may have, with the line. -/
def noted (e? : Option AssemblyError) : List Diagnostic :=
  e?.toList.map (⟨before.length + 1, Text.trim line, ·⟩)

/-- The warning that the label of a line loses its address. -/
def redefinitionDiagnostics : List Diagnostic := noted before line (redefinition? before line)

/-- What is wrong with a line by itself. -/
def flawDiagnostics : List Diagnostic := noted before line (flaw? line)

/-- What is wrong with the operands of a line. -/
def operandDiagnostics (labels : LabelTable) : List Diagnostic :=
  (slotAfter? before line).toList.flatMap (·.diagnostics labels)

end Line

namespace Source

variable (s : Source) (number : Nat) (text name line : Text) (st : Statement)

theorem diagnostics_define :
    (s.define number text name).diagnostics.toList =
      s.diagnostics.toList ++
        (if name = [] then [.emptyLabel]
        else (s.labels[name]?.map (.duplicateLabel name)).toList).map (⟨number, text, ·⟩) := by
  unfold define
  split_ifs
  · simp
  · dsimp only
    split <;> simp_all

theorem diagnostics_emit :
    (s.emit number text st).diagnostics.toList =
      s.diagnostics.toList ++
        (if st.label? = none then
          ((st.content?.filter fun content => Mnemonic.ofName? content.1 = none).map fun content =>
            .unknownMnemonic content.1).toList
        else []).map (⟨number, text, ·⟩) := by
  unfold emit
  cases st.content? with
  | none => simp
  | some content =>
    dsimp only
    rw [Option.filter_some]
    split_ifs <;> simp_all

theorem diagnostics_addLine :
    (s.addLine (line, number)).diagnostics.toList =
      s.diagnostics.toList ++
        (((Line.label? line).bind fun name =>
            s.labels[name]?.map (AssemblyError.duplicateLabel name)).toList ++
          (Line.flaw? line).toList).map (⟨number, Text.trim line, ·⟩) := by
  rw [Line.label?]
  cases hst : Line.statement? line with
  | none =>
    rw [addLine_of_statement?_eq_none s number line hst, Line.flaw?_of_statement?_eq_none hst]
    simp
  | some st =>
    rw [addLine_of_statement? s number line st hst, Line.flaw?_of_statement? hst, diagnostics_emit,
      Option.bind_some]
    cases st.label? with
    | none => simp
    | some name =>
      dsimp only
      rw [diagnostics_define, Option.filter_some]
      by_cases hname : name = [] <;> simp [hname]

/-! ## The first pass -/

theorem slots_ofLines_eq (lines : List Text) :
    (ofLines lines).slots.toList =
      lineByLine (fun before line => (Line.slotAfter? before line).toList) lines := by
  induction lines using List.reverseRecOn with
  | nil => rfl
  | append_singleton lines line ih =>
    rw [ofLines_concat, (addLine_eq _ _ _).1, ih, address_ofLines, lineByLine_concat,
      Line.slotAfter?]

theorem labels_ofLines_eq (lines : List Text) (name : Text) :
    (ofLines lines).labels[name]? = addressOf? lines name := by
  induction lines using List.reverseRecOn with
  | nil => rfl
  | append_singleton lines line ih =>
    rw [getElem?_labels_concat, addressOf?_concat, address_ofLines, ih]

theorem diagnostics_ofLines (lines : List Text) :
    (ofLines lines).diagnostics.toList =
      lineByLine (fun before line =>
        Line.redefinitionDiagnostics before line ++ Line.flawDiagnostics before line) lines := by
  induction lines using List.reverseRecOn with
  | nil => rfl
  | append_singleton lines line ih =>
    rw [ofLines_concat, diagnostics_addLine, ih, lineByLine_concat, List.map_append]
    simp only [labels_ofLines_eq]
    rfl

end Source

theorem addressOf?_eq_some_iff {lines : List Text} {name : Text} {target : Word} :
    addressOf? lines name = some target ↔
      ∃ i, Source.LastDefinition lines name i ∧
        target = BitVec.ofNat 32 (4 * slotsBefore lines i) := by
  rw [← Source.labels_ofLines_eq, Source.labels_ofLines_eq_some_iff]

theorem isSome_addressOf?_iff (lines : List Text) (name : Text) :
    (addressOf? lines name).isSome ↔ ∃ line ∈ lines, Line.label? line = some name := by
  induction lines using List.reverseRecOn with
  | nil => simp [addressOf?, definitions, lineByLine]
  | append_singleton lines line ih =>
    rw [addressOf?_concat]
    split_ifs with hdef
    · simp [hdef]
    · rw [ih]
      simp [or_and_right, exists_or, hdef]

/-! ## The diagnostics of a line -/

theorem filter_severity {l : List Diagnostic} {kind : Severity} (h : ∀ d ∈ l, d.severity = kind)
    (wanted : Severity) : l.filter (·.severity == wanted) = if kind = wanted then l else [] := by
  split_ifs with heq
  · exact List.filter_eq_self.2 fun d hd => beq_iff_eq.2 ((h d hd).trans heq)
  · refine List.filter_eq_nil_iff.2 fun d hd hwanted => heq ?_
    rw [← h d hd, beq_iff_eq.1 hwanted]

namespace Line

variable {before : List Text} {line : Text} {d : Diagnostic}

theorem line_of_mem_noted {e? : Option AssemblyError} (h : d ∈ noted before line e?) :
    d.line = before.length + 1 := by
  obtain ⟨e, -, rfl⟩ := List.mem_map.1 h
  rfl

theorem numbered_operandDiagnostics (labels : LabelTable) :
    Numbered Diagnostic.line (operandDiagnostics · · labels) := by
  intro before line d hd
  obtain ⟨slot, hslot, hd⟩ := List.mem_flatMap.1 hd
  obtain ⟨e, -, rfl⟩ := List.mem_map.1 hd
  exact (mnemonic?_of_slot? (Option.mem_toList.1 hslot)).1

theorem numbered_programLines (labels : LabelTable) :
    Numbered ProgramLine.line fun before line =>
      (slotAfter? before line).toList.map (·.programLine labels) := by
  intro before line entry hentry
  obtain ⟨slot, hslot, rfl⟩ := List.mem_map.1 hentry
  exact (mnemonic?_of_slot? (Option.mem_toList.1 hslot)).1

theorem severity_of_mem_redefinitionDiagnostics (h : d ∈ redefinitionDiagnostics before line) :
    d.severity = .warning := by
  obtain ⟨e, he, rfl⟩ := List.mem_map.1 h
  obtain ⟨name, -, he⟩ := Option.bind_eq_some_iff.1 (Option.mem_toList.1 he)
  obtain ⟨previous, -, rfl⟩ := Option.map_eq_some_iff.1 he
  rfl

theorem severity_of_mem_flawDiagnostics (h : d ∈ flawDiagnostics before line) :
    d.severity = .error := by
  obtain ⟨e, he, rfl⟩ := List.mem_map.1 h
  rw [Option.mem_toList, flaw?] at he
  split at he
  · obtain ⟨-, he⟩ := Option.ite_none_right_eq_some.1 he
    obtain rfl := Option.some.inj he
    rfl
  · obtain ⟨head, -, rfl⟩ := Option.map_eq_some_iff.1 he
    rfl

theorem severity_of_mem_operandDiagnostics {labels : LabelTable}
    (h : d ∈ operandDiagnostics before line labels) : d.severity = .error := by
  obtain ⟨slot, -, hd⟩ := List.mem_flatMap.1 h
  obtain ⟨e, he, rfl⟩ := List.mem_map.1 hd
  exact slot.serious_encode labels e he

/-- The redefinition of a label is a warning, everything else an error. -/
theorem filter_severity_diagnostics (before : List Text) (line : Text) (labels : LabelTable)
    (wanted : Severity) :
    ((redefinitionDiagnostics before line ++ flawDiagnostics before line) ++
        operandDiagnostics before line labels).filter (·.severity == wanted) =
      if wanted = .warning then redefinitionDiagnostics before line
      else flawDiagnostics before line ++ operandDiagnostics before line labels := by
  rw [List.filter_append, List.filter_append,
    filter_severity fun d => severity_of_mem_redefinitionDiagnostics,
    filter_severity fun d => severity_of_mem_flawDiagnostics,
    filter_severity fun d => severity_of_mem_operandDiagnostics]
  cases wanted <;> simp

/-- A slot without a mnemonic stands behind a colon. -/
theorem mem_beforeComment_of_slot? {number : Nat} {address : Word} {slot : Slot}
    (h : slot? number address line = some slot) (hnone : slot.mnemonic? = none) :
    ':' ∈ Text.beforeComment line := by
  unfold slot? at h
  simp only [Option.bind_eq_bind, Option.bind_eq_some_iff] at h
  obtain ⟨st, hst, content, -, h⟩ := h
  split_ifs at h with hno
  obtain rfl := Option.some.inj h
  by_contra hmem
  have hname : name? line = none := by rw [name?, Text.cutAt?_of_not_mem hmem, Option.map_none]
  rw [← bind_label?_statement?, hst, Option.bind_some] at hname
  exact hno ⟨hnone, hname⟩

theorem redefinition?_eq_some_iff {lines : List Text} {i : Nat} {e : AssemblyError} :
    redefinition? (lines.take i) line = some e ↔
      ∃ name j, label? line = some name ∧ Source.LastDefinition (lines.take i) name j ∧
        e = .duplicateLabel name (BitVec.ofNat 32 (4 * slotsBefore lines j)) := by
  have hbefore {name : Text} {j : Nat} (h : Source.LastDefinition (lines.take i) name j) :
      slotsBefore (lines.take i) j = slotsBefore lines j :=
    slotsBefore_take (h.lt.le.trans (List.length_take_le i lines))
  simp only [redefinition?, Option.bind_eq_some_iff, Option.map_eq_some_iff,
    addressOf?_eq_some_iff]
  constructor
  · rintro ⟨name, hname, _, ⟨j, hj, rfl⟩, rfl⟩
    exact ⟨name, j, hname, hj, by rw [hbefore hj]⟩
  · rintro ⟨name, j, hname, hj, rfl⟩
    exact ⟨name, hname, _, ⟨j, hj, rfl⟩, by rw [hbefore hj]⟩

end Line

/-! ## The second pass -/

namespace Source

variable (lines : List Text)

theorem lines_assemble_ofLines :
    (ofLines lines).assemble.lines =
      lineByLine (fun before line =>
        (Line.slotAfter? before line).toList.map (·.programLine (ofLines lines).labels)) lines := by
  rw [assemble, slots_ofLines_eq]
  exact map_lineByLine _ _ lines

theorem diagnostics_assemble_ofLines :
    (ofLines lines).assemble.diagnostics =
      lineByLine (fun before line =>
        (Line.redefinitionDiagnostics before line ++ Line.flawDiagnostics before line) ++
          Line.operandDiagnostics before line (ofLines lines).labels) lines := by
  have hscan : Numbered Diagnostic.line fun before line =>
      Line.redefinitionDiagnostics before line ++ Line.flawDiagnostics before line := by
    intro before line d hd
    exact (List.mem_append.1 hd).elim Line.line_of_mem_noted Line.line_of_mem_noted
  rw [assemble, diagnostics_ofLines, slots_ofLines_eq, flatMap_lineByLine]
  exact mergeSort_lineByLine hscan (Line.numbered_operandDiagnostics (ofLines lines).labels) lines

theorem warnings_assemble_ofLines :
    (ofLines lines).assemble.diagnostics.filter (·.severity == .warning) =
      lineByLine Line.redefinitionDiagnostics lines := by
  rw [diagnostics_assemble_ofLines, filter_lineByLine]
  simp only [Line.filter_severity_diagnostics, if_true]

theorem errors_assemble_ofLines :
    (ofLines lines).assemble.errors =
      lineByLine (fun before line => Line.flawDiagnostics before line ++
        Line.operandDiagnostics before line (ofLines lines).labels) lines := by
  rw [Program.errors, diagnostics_assemble_ofLines, filter_lineByLine]
  simp only [Line.filter_severity_diagnostics, reduceCtorEq, if_false]

end Source

/-! ## Programs -/

/-- A program that is put together from the lines of a source. -/
structure AssembledByLine (t : Text) (p : Program) : Prop where
  /-- A line that takes a slot gives one word. -/
  lines_eq : p.lines =
    lineByLine (fun before line =>
      (Line.slotAfter? before line).toList.map (·.programLine p.labels)) (Text.lines t)
  address_eq : ∀ k line, p.lines[k]? = some line → line.address = BitVec.ofNat 32 (4 * k)
  pairwise_line : p.lines.Pairwise (·.line < ·.line)
  /-- Labels are the names before the first colon of a line, except the empty one. -/
  mem_labels_iff : ∀ name, name ∈ p.labels ↔
    name ≠ [] ∧ ∃ line ∈ Text.lines t, ∃ a b,
      Text.cutAt? ':' (Text.beforeComment line) = some (a, b) ∧ Text.trim a = name
  /-- The last definition of a label counts. -/
  labels_eq_some_iff : ∀ name target, p.labels[name]? = some target ↔
    ∃ i, Source.LastDefinition (Text.lines t) name i ∧
      target = BitVec.ofNat 32 (4 * slotsBefore (Text.lines t) i)
  /-- What is wrong with a line comes before what is wrong with its operands. -/
  diagnostics_eq : p.diagnostics =
    lineByLine (fun before line =>
      (Line.redefinitionDiagnostics before line ++ Line.flawDiagnostics before line) ++
        Line.operandDiagnostics before line p.labels) (Text.lines t)
  /-- The warnings are the redefinitions, at most one for a line. -/
  warnings_eq : p.diagnostics.filter (·.severity == .warning) =
    lineByLine Line.redefinitionDiagnostics (Text.lines t)
  /-- A redefinition tells the address of the definition that it replaces. -/
  redefinition?_eq_some_iff : ∀ i line e,
    Line.redefinition? ((Text.lines t).take i) line = some e ↔
      ∃ name j, Line.label? line = some name ∧
        Source.LastDefinition ((Text.lines t).take i) name j ∧
        e = .duplicateLabel name (BitVec.ofNat 32 (4 * slotsBefore (Text.lines t) j))
  /-- A slot with a mnemonic is its encoding against the final label table. -/
  known : ∀ before line slot op, Line.slotAfter? before line = some slot →
    slot.mnemonic? = some op →
      (slot.programLine p.labels).word = (encode op slot.operands p.labels slot.address).value ∧
        slot.diagnostics p.labels =
          (encode op slot.operands p.labels slot.address).errors.map (⟨slot.line, slot.echo, ·⟩)
  /-- A slot without a mnemonic stands behind a colon and is the word 0, with one note. -/
  unknown : ∀ before line slot, Line.slotAfter? before line = some slot → slot.mnemonic? = none →
    ':' ∈ Text.beforeComment line ∧ (slot.programLine p.labels).word = 0 ∧
      slot.diagnostics p.labels = [⟨slot.line, slot.echo, .unknownMnemonic slot.head⟩]

/-- What each line adds to the words, the labels and the diagnostics depends on the other lines only
through the labels and the number of slots before it. -/
theorem assembledByLine_assemble (t : Text) : AssembledByLine t (assemble t) where
  lines_eq := Source.lines_assemble_ofLines (Text.lines t)
  address_eq := by
    intro k line hk
    rw [assemble, Source.assemble, List.getElem?_map, Option.map_eq_some_iff] at hk
    obtain ⟨slot, hslot, rfl⟩ := hk
    exact (Source.slots_ofLines (Text.lines t) k slot hslot).1
  pairwise_line := by
    rw [assemble, Source.ofText_eq_ofLines, Source.lines_assemble_ofLines]
    apply (Line.numbered_programLines _).pairwise_lt
    intro before line
    cases Line.slotAfter? before line with
    | none => exact List.Pairwise.nil
    | some slot => exact List.pairwise_singleton _ _
  mem_labels_iff := by
    intro name
    rw [assemble, Source.assemble, Source.ofText_eq_ofLines, Std.TreeMap.mem_iff_isSome_getElem?,
      Source.labels_ofLines_eq, isSome_addressOf?_iff]
    simp only [Line.label?_eq_some_iff, and_left_comm (b := name ≠ []), exists_and_left]
  labels_eq_some_iff := Source.labels_ofLines_eq_some_iff (Text.lines t)
  diagnostics_eq := Source.diagnostics_assemble_ofLines (Text.lines t)
  warnings_eq := Source.warnings_assemble_ofLines (Text.lines t)
  redefinition?_eq_some_iff := fun _ _ _ => Line.redefinition?_eq_some_iff
  known := by
    intro before line slot op _ hop
    refine ⟨?_, ?_⟩
    · rw [Slot.programLine, Slot.encode, hop]
    · rw [Slot.diagnostics, Slot.encode, hop]
  unknown := by
    intro before line slot hslot hnone
    refine ⟨Line.mem_beforeComment_of_slot? hslot hnone, ?_, ?_⟩
    · rw [Slot.programLine, Slot.encode, hnone]
    · rw [Slot.diagnostics, Slot.encode, hnone]
      rfl

end RefHart
