import Mathlib
import RefHart.Proofs.Concatenation

/-!
# Lines that say the same

What a line gives to a program is settled by its name and its instruction, the head read as a
mnemonic where it names one. Two lines that agree in these are alike (`Line.Alike`), however they
are written. A line is idle if it takes no slot and nothing is wrong with it (`Line.Idle`).

**Theorem (`Relaid.extends_assemble`).** Putting lines in the place of lines like them, and idle
lines anywhere between them, leaves the words, their addresses and the problems as they are. It only
adds the labels of the idle lines, if these names are new.

The induction is from the last line on. What it carries along is that the lines before take equally
many slots and give every old name the same address.
-/

namespace RefHart

/-! ## What a line gives to a program -/

/-- What the head of a body names: a mnemonic, or nothing that is known. -/
def Mnemonic.read (head : Text) : Except Text Mnemonic :=
  match ofName? head with
  | some op => .ok op
  | none => .error head

namespace Line

variable {line line' : Text}

/-- The head of a body, read as a mnemonic, and the operands behind it. -/
def instruction? (line : Text) : Option (Except Text Mnemonic × List Text) :=
  ((statement? line).bind (·.content?)).map fun content => (Mnemonic.read content.1, content.2)

/-- The token that the instruction of a line looks up among the labels. -/
def reference? (line : Text) : Option Text := (slot? 0 0 line).bind Slot.reference?

/-- The word of an instruction that stands on a line with the given name, and its problems. An
unknown head is encoded only behind a colon. -/
def encoding? (name? : Option Text) (labels : LabelTable) (address : Word) :
    Except Text Mnemonic × List Text → Option (Noted Word)
  | (.ok op, operands) => some (RefHart.encode op operands labels address)
  | (.error head, _) => if name? = none then none else some ⟨0, [.unknownMnemonic head]⟩

theorem slot?_eq_map (number : Nat) (address : Word) (line : Text) :
    slot? number address line =
      (slot? 0 0 line).map fun slot => { slot with line := number, address } := by
  unfold slot?
  cases statement? line with
  | none => rfl
  | some st =>
    cases hc : st.content? with
    | none => simp [hc]
    | some content =>
      simp only [Option.bind_eq_bind, Option.bind_some, hc]
      split_ifs <;> rfl

theorem bind_reference?_slot? (number : Nat) (address : Word) (line : Text) :
    (slot? number address line).bind Slot.reference? = reference? line := by
  rw [slot?_eq_map, Option.bind_map]
  rfl

theorem map_encode_slot? (number : Nat) (address : Word) (labels : LabelTable) (line : Text) :
    (slot? number address line).map (·.encode labels) =
      (instruction? line).bind (encoding? (name? line) labels address) := by
  rw [← bind_label?_statement?, instruction?, slot?]
  cases statement? line with
  | none => rfl
  | some st =>
    simp only [Option.bind_eq_bind, Option.bind_some]
    cases st.content? with
    | none => rfl
    | some content =>
      obtain ⟨head, operands⟩ := content
      simp only [Option.bind_some, Option.map_some, Mnemonic.read]
      cases hop : Mnemonic.ofName? head with
      | some op => simp [encoding?, Slot.encode]
      | none =>
        simp only [encoding?, true_and]
        split_ifs <;> rfl

theorem takesSlot_of_instruction?_eq_none (h : instruction? line = none) :
    takesSlot line = false := by
  have hslot := congrArg Option.isSome (map_encode_slot? 0 0 ∅ line)
  rwa [h, Option.isSome_map] at hslot

theorem flaw?_eq (line : Text) :
    flaw? line =
      match name? line with
      | some name => if name = [] then some .emptyLabel else none
      | none => (instruction? line).bind fun read =>
          match read.1 with
          | .ok _ => none
          | .error head => some (.unknownMnemonic head) := by
  rw [instruction?, ← bind_label?_statement?]
  cases hst : statement? line with
  | none => exact flaw?_of_statement?_eq_none hst
  | some st =>
    rw [flaw?_of_statement? hst, Option.bind_some, Option.bind_some]
    cases st.label? with
    | some name => rfl
    | none =>
      cases st.content? with
      | none => rfl
      | some content =>
        simp only [Option.filter_some, Option.map_some, Option.bind_some, Mnemonic.read]
        cases Mnemonic.ofName? content.1 <;> rfl

/-! ## Lines that are alike -/

/-- The lines have the same name and hold the same instruction. -/
structure Alike (line line' : Text) : Prop where
  name?_eq : name? line' = name? line
  instruction?_eq : instruction? line' = instruction? line

theorem Alike.refl (line : Text) : Alike line line := ⟨rfl, rfl⟩

namespace Alike

variable (h : Alike line line')

include h

theorem label?_eq : label? line' = label? line := by rw [Line.label?_eq, Line.label?_eq, h.name?_eq]

theorem flaw?_eq : flaw? line' = flaw? line := by
  rw [Line.flaw?_eq, Line.flaw?_eq, h.name?_eq, h.instruction?_eq]

theorem map_encode_slot? (number number' : Nat) (address : Word) (labels : LabelTable) :
    (slot? number' address line').map (·.encode labels) =
      (slot? number address line).map (·.encode labels) := by
  rw [Line.map_encode_slot?, Line.map_encode_slot?, h.name?_eq, h.instruction?_eq]

theorem takesSlot_eq : takesSlot line' = takesSlot line := by
  have hslot := congrArg Option.isSome (h.map_encode_slot? 0 0 0 ∅)
  rwa [Option.isSome_map, Option.isSome_map] at hslot

end Alike

/-- A slot is encoded alike against labels that agree on what it looks up. -/
theorem map_encode_congr {labels labels' : LabelTable}
    (h : ∀ t, reference? line = some t → labels'[t]? = labels[t]?) (number : Nat) (address : Word) :
    (slot? number address line).map (·.encode labels') =
      (slot? number address line).map (·.encode labels) := by
  refine Option.map_congr fun slot hslot => ?_
  have hdistance (t : Text) (ht : slot.reference? = some t) :
      distance? labels' slot.address t = distance? labels slot.address t := by
    have hreference : reference? line = some t := by
      rw [← bind_reference?_slot? number address, hslot, Option.bind_some, ht]
    rw [distance?, distance?, h t hreference]
  -- The slot stands at its own place.
  have hencode : { slot with line := slot.line, address := slot.address }.encode labels' =
      slot.encode labels := Slot.encode_congr hdistance
  exact hencode

/-- A line that takes no slot, and with which nothing is wrong. -/
structure Idle (line : Text) : Prop where
  takesSlot_eq : takesSlot line = false
  flaw?_eq : flaw? line = none

end Line

/-! ## Sources laid out anew -/

/-- The second row of lines has a line like it for each line of the first row, and idle lines
between them. The labels of the idle lines are among the given names and are new where they
stand. -/
inductive Relaid (names : List Text) : List Text → List Text → Prop
  | nil : Relaid names [] []
  | line {ls ls' : List Text} {l l' : Text} (h : Relaid names ls ls') (halike : Line.Alike l l') :
      Relaid names (ls ++ [l]) (ls' ++ [l'])
  | idle {ls ls' : List Text} {l : Text} (h : Relaid names ls ls') (hidle : Line.Idle l)
      (hlabel : ∀ name, Line.label? l = some name → name ∈ names ∧ addressOf? ls' name = none) :
      Relaid names ls (ls' ++ [l])

namespace Relaid

variable {names ls ls' : List Text}

theorem append (h : Relaid names ls ls') (rest : List Text) :
    Relaid names (ls ++ rest) (ls' ++ rest) := by
  induction rest using List.reverseRecOn with
  | nil => simpa using h
  | append_singleton rest l ih =>
    rw [← List.append_assoc, ← List.append_assoc]
    exact ih.line (.refl l)

theorem refl (names ls : List Text) : Relaid names ls ls := Relaid.nil.append ls

theorem countP_takesSlot (h : Relaid names ls ls') :
    ls'.countP Line.takesSlot = ls.countP Line.takesSlot := by
  induction h with
  | nil => rfl
  | line _ halike ih =>
    rw [List.countP_append, List.countP_append, ih, List.countP_singleton, List.countP_singleton,
      halike.takesSlot_eq]
  | idle _ hidle _ ih =>
    rw [List.countP_append, ih, List.countP_singleton, hidle.takesSlot_eq]
    rfl

/-- The names that are not inserted keep their addresses. -/
theorem addressOf?_eq (h : Relaid names ls ls') {name : Text} (hname : name ∉ names) :
    addressOf? ls' name = addressOf? ls name := by
  induction h with
  | nil => rfl
  | line h halike ih =>
    rw [addressOf?_concat, addressOf?_concat, halike.label?_eq, h.countP_takesSlot, ih]
  | idle _ _ hlabel ih =>
    rw [addressOf?_concat, if_neg fun hl => hname (hlabel name hl).1, ih]

/-- Rows to which alike lines add the same, and idle lines nothing, are the same. -/
theorem lineByLine_eq {α : Type} {f g : List Text → Text → List α} (h : Relaid names ls ls')
    (hline : ∀ b b' l l', Relaid names b b' → Line.Alike l l' → l ∈ ls → g b' l' = f b l)
    (hidle : ∀ b' l, Line.Idle l → (∀ name, Line.label? l = some name → addressOf? b' name = none) →
      g b' l = []) :
    lineByLine g ls' = lineByLine f ls := by
  induction h with
  | nil => rfl
  | line h halike ih =>
    rw [lineByLine_concat, lineByLine_concat, hline _ _ _ _ h halike List.mem_concat_self, ih]
    exact fun b b' l l' hb hl hmem => hline b b' l l' hb hl (List.mem_append_left _ hmem)
  | idle _ hl hlabel ih =>
    rw [lineByLine_concat, hidle _ _ hl fun name hname => (hlabel name hname).2, List.append_nil,
      ih hline]

/-! ## Programs laid out anew -/

/-- The encodings of the slots that alike lines take in corresponding places. -/
theorem map_encode_slotAfter? {l l' : Text} {labels labels' : LabelTable} (h : Relaid names ls ls')
    (halike : Line.Alike l l')
    (hlabels : ∀ t, Line.reference? l = some t → labels'[t]? = labels[t]?) :
    (Line.slotAfter? ls' l').map (·.encode labels') =
      (Line.slotAfter? ls l).map (·.encode labels) := by
  rw [Line.slotAfter?, Line.slotAfter?, h.countP_takesSlot,
    halike.map_encode_slot? (ls.length + 1) (ls'.length + 1), Line.map_encode_congr hlabels]

end Relaid

/-- The words with their addresses. -/
def Program.image (p : Program) : List (Word × Word) := p.lines.map fun l => (l.address, l.word)

/-- The problems in order, without their places. -/
def Program.problems (p : Program) : List AssemblyError := p.diagnostics.map (·.error)

/-- The program is the given one but for further labels, and for the places and texts of its
lines. -/
structure Program.Extends (names : List Text) (p p' : Program) : Prop where
  image_eq : p'.image = p.image
  labels_eq : ∀ name, name ∉ names → p'.labels[name]? = p.labels[name]?
  mem_labels : ∀ name ∈ names, name ∉ p.labels ∧ name ∈ p'.labels
  problems_eq : p'.problems = p.problems

namespace Source

variable (lines : List Text)

theorem image_assemble_ofLines :
    (ofLines lines).assemble.image =
      lineByLine (fun before line =>
        ((Line.slotAfter? before line).map (·.encode (ofLines lines).labels)).toList.map fun word =>
          (BitVec.ofNat 32 (4 * before.countP Line.takesSlot), word.value)) lines := by
  rw [Program.image, lines_assemble_ofLines, map_lineByLine]
  refine lineByLine_congr fun i line _ => ?_
  cases hslot : Line.slotAfter? (lines.take i) line with
  | none => rfl
  | some slot =>
    have haddress := (Line.mnemonic?_of_slot? hslot).2.1
    simp [Slot.programLine, haddress]

theorem problems_assemble_ofLines :
    (ofLines lines).assemble.problems =
      lineByLine (fun before line =>
        (Line.redefinition? before line).toList ++ (Line.flaw? line).toList ++
          ((Line.slotAfter? before line).map (·.encode (ofLines lines).labels)).toList.flatMap
            (·.errors)) lines := by
  rw [Program.problems, diagnostics_assemble_ofLines, map_lineByLine]
  refine lineByLine_congr fun i line _ => ?_
  rw [List.map_append, List.map_append, Line.redefinitionDiagnostics, Line.flawDiagnostics,
    Line.operandDiagnostics, Line.noted, Line.noted, List.map_map, List.map_map, List.map_flatMap,
    Option.toList_map, List.flatMap_map]
  simp [Function.comp_def, Slot.diagnostics]

/-- The name of a line is among the labels, and what a line looks up among the references. -/
theorem mem_labels_of_label? {lines : List Text} {line name : Text} (hmem : line ∈ lines)
    (h : Line.label? line = some name) : name ∈ (ofLines lines).labels := by
  rw [Std.TreeMap.mem_iff_isSome_getElem?, labels_ofLines_eq, isSome_addressOf?_iff]
  exact ⟨line, hmem, h⟩

theorem mem_references_of_reference? {lines : List Text} {line t : Text} (hmem : line ∈ lines)
    (h : Line.reference? line = some t) : t ∈ (ofLines lines).references := by
  obtain ⟨i, hline⟩ := List.getElem?_of_mem hmem
  rw [← Line.bind_reference?_slot? ((lines.take i).length + 1)
    (BitVec.ofNat 32 (4 * (lines.take i).countP Line.takesSlot))] at h
  obtain ⟨slot, hslot, ht⟩ := Option.bind_eq_some_iff.1 h
  exact List.mem_filterMap.2 ⟨slot, mem_slots_of_slotAfter? hline hslot, ht⟩

end Source

open Source

theorem Relaid.extends_assemble {names ls ls' : List Text} (h : Relaid names ls ls')
    (hnew : ∀ name ∈ names, name ∉ (ofLines ls).labels ∧ name ∉ (ofLines ls).references)
    (hdefined : ∀ name ∈ names, name ∈ (ofLines ls').labels) :
    Program.Extends names (ofLines ls).assemble (ofLines ls').assemble := by
  have hlabels (name : Text) (hname : name ∉ names) :
      (ofLines ls').labels[name]? = (ofLines ls).labels[name]? := by
    rw [labels_ofLines_eq, labels_ofLines_eq, h.addressOf?_eq hname]
  have hreferences {l : Text} (hl : l ∈ ls) (t : Text) (ht : Line.reference? l = some t) :
      (ofLines ls').labels[t]? = (ofLines ls).labels[t]? :=
    hlabels t fun hname => (hnew t hname).2 (mem_references_of_reference? hl ht)
  have hidle {before : List Text} {l : Text} (hl : Line.Idle l) :
      Line.slotAfter? before l = none := by
    rw [← Option.not_isSome_iff_eq_none, Line.slotAfter?, Line.isSome_slot?, hl.takesSlot_eq]
    decide
  refine ⟨?_, hlabels, fun name hname => ⟨(hnew name hname).1, hdefined name hname⟩, ?_⟩
  · rw [image_assemble_ofLines, image_assemble_ofLines]
    refine h.lineByLine_eq (fun b b' l l' hb halike hl => ?_) fun b' l hl _ => ?_
    · rw [hb.map_encode_slotAfter? halike (hreferences hl), hb.countP_takesSlot]
    · rw [hidle hl]
      rfl
  · rw [problems_assemble_ofLines, problems_assemble_ofLines]
    refine h.lineByLine_eq (fun b b' l l' hb halike hl => ?_) fun b' l hl hlabel => ?_
    · have hredefinition : Line.redefinition? b' l' = Line.redefinition? b l := by
        rw [Line.redefinition?, Line.redefinition?, halike.label?_eq]
        refine Option.bind_congr fun name hname => ?_
        rw [hb.addressOf?_eq fun hnames => (hnew name hnames).1 (mem_labels_of_label? hl hname)]
      rw [hredefinition, halike.flaw?_eq, hb.map_encode_slotAfter? halike (hreferences hl)]
    · have hredefinition : Line.redefinition? b' l = none := by
        rw [Line.redefinition?, Option.bind_eq_none_iff]
        intro name hname
        rw [hlabel name hname, Option.map_none]
      rw [hredefinition, hl.flaw?_eq, hidle hl]
      rfl

end RefHart
