import Mathlib
import RefHart.Assembly.Program

/-!
# Where slots and labels are placed

Reading a source goes from line to line with an address in hand. Here every line is looked at by
itself: `Line.slot?` is the slot that it takes, `Line.label?` the label that it defines. The address
of a slot and of a label then is four times the number of slots on the lines before it.

**Slots (`slots_ofLines`).** The `k`-th slot is the slot of the line that has `k` slots before it.

**Labels (`labels_ofLines_eq_some_iff`).** A label stands for the first slot that is not on a line before
its last definition.
-/

namespace RefHart

/-! ## Single lines -/

namespace Line

/-- What a line holds besides blanks and a comment. -/
def statement? (line : Text) : Option Statement := Statement.ofTrimmed? (Text.trim line)

/-- The label that a line defines. -/
def label? (line : Text) : Option Text :=
  ((statement? line).bind (·.label?)).filter (· ≠ [])

/-- The slot that a line takes, if it takes one. -/
def slot? (number : Nat) (address : Word) (line : Text) : Option Slot := do
  let st ← statement? line
  let (head, operands) ← st.content?
  if Mnemonic.ofName? head = none ∧ st.label? = none then none
  else some ⟨number, address, st.echo, head, Mnemonic.ofName? head, operands⟩

/-- Whether a line takes a slot. -/
def takesSlot (line : Text) : Bool := (slot? 0 0 line).isSome

theorem isSome_slot? (number : Nat) (address : Word) (line : Text) :
    (slot? number address line).isSome = takesSlot line := by
  unfold takesSlot slot?
  cases statement? line with
  | none => rfl
  | some st =>
    cases hc : st.content? with
    | none => simp [hc]
    | some content =>
      simp only [Option.bind_eq_bind, Option.bind_some, hc]
      split_ifs <;> rfl

theorem mnemonic?_of_slot? {number : Nat} {address : Word} {line : Text} {slot : Slot}
    (h : slot? number address line = some slot) :
    slot.line = number ∧ slot.address = address ∧ slot.mnemonic? = Mnemonic.ofName? slot.head := by
  unfold slot? at h
  simp only [Option.bind_eq_bind, Option.bind_eq_some_iff] at h
  obtain ⟨st, -, content, -, h⟩ := h
  split_ifs at h
  obtain rfl := Option.some.inj h
  exact ⟨rfl, rfl, rfl⟩

end Line

/-- How many slots the lines before the one with index `i` take. -/
def slotsBefore (lines : List Text) (i : Nat) : Nat := (lines.take i).countP Line.takesSlot

theorem slotsBefore_mono (lines : List Text) {i j : Nat} (h : i ≤ j) :
    slotsBefore lines i ≤ slotsBefore lines j := by
  have htake : lines.take i = (lines.take j).take i := by
    rw [List.take_take, Nat.min_eq_left h]
  rw [slotsBefore, htake]
  exact (List.take_sublist i _).countP_le

theorem slotsBefore_take {lines : List Text} {i j : Nat} (h : j ≤ i) :
    slotsBefore (lines.take i) j = slotsBefore lines j := by
  rw [slotsBefore, List.take_take, Nat.min_eq_left h, slotsBefore]

theorem slotsBefore_concat {lines : List Text} {i : Nat} (hi : i ≤ lines.length) (line : Text) :
    slotsBefore (lines ++ [line]) i = slotsBefore lines i := by
  rw [slotsBefore, List.take_append_of_le_length hi, slotsBefore]

theorem slotsBefore_succ {lines : List Text} {i : Nat} {line : Text} (h : lines[i]? = some line) :
    slotsBefore lines (i + 1) = slotsBefore lines i + if Line.takesSlot line then 1 else 0 := by
  rw [slotsBefore, List.take_add_one, h, List.countP_append, Option.toList_some,
    List.countP_singleton, slotsBefore]

/-- The slots from a line on are those that have at least as many slots before them as the line. -/
theorem slotsBefore_le_iff {lines : List Text} {i j : Nat} {line : Text}
    (h : lines[j]? = some line) (htakes : Line.takesSlot line) :
    slotsBefore lines i ≤ slotsBefore lines j ↔ i ≤ j := by
  refine ⟨?_, slotsBefore_mono lines⟩
  intro hle
  by_contra hlt
  have hsucc := slotsBefore_mono lines (Nat.succ_le_of_lt (not_le.1 hlt))
  rw [Nat.succ_eq_add_one, slotsBefore_succ h, if_pos htakes] at hsucc
  omega

namespace Source

/-! ## One line further -/

variable (s : Source) (number : Nat) (text name line : Text) (st : Statement)

@[simp] theorem address_define : (s.define number text name).address = s.address := by
  unfold define
  split_ifs
  · rfl
  · dsimp only
    split <;> rfl

@[simp] theorem slots_define : (s.define number text name).slots = s.slots := by
  unfold define
  split_ifs
  · rfl
  · dsimp only
    split <;> rfl

theorem labels_define :
    (s.define number text name).labels =
      if name = [] then s.labels else s.labels.insert name s.address := by
  unfold define
  split_ifs
  · rfl
  · dsimp only
    split <;> rfl

@[simp] theorem labels_emit : (s.emit number text st).labels = s.labels := by
  unfold emit
  split
  · rfl
  · dsimp only
    split_ifs <;> rfl

/-- The slot of a statement. -/
theorem emit_eq (hst : Line.statement? line = some st) :
    (s.emit number text st).slots.toList =
        s.slots.toList ++ (Line.slot? number s.address line).toList ∧
      (s.emit number text st).address = if Line.takesSlot line then s.address + 4 else s.address := by
  rw [← Line.isSome_slot? number s.address line, Line.slot?, hst]
  unfold emit
  cases hc : st.content? with
  | none => simp [hc]
  | some content =>
    obtain ⟨head, operands⟩ := content
    simp only [Option.bind_eq_bind, Option.bind_some, hc]
    split_ifs with hnone <;> simp_all

theorem addLine_of_statement? (hst : Line.statement? line = some st) :
    s.addLine (line, number) =
      (match st.label? with
        | some name => s.define number (Text.trim line) name
        | none => s).emit number (Text.trim line) st := by
  unfold Line.statement? at hst
  rewrite [addLine, hst]
  rfl

theorem addLine_of_statement?_eq_none (hst : Line.statement? line = none) :
    s.addLine (line, number) = s := by
  unfold Line.statement? at hst
  rewrite [addLine, hst]
  rfl

theorem addLine_eq :
    (s.addLine (line, number)).slots.toList =
        s.slots.toList ++ (Line.slot? number s.address line).toList ∧
      (s.addLine (line, number)).address =
        if Line.takesSlot line then s.address + 4 else s.address := by
  cases hst : Line.statement? line with
  | none =>
    rw [addLine_of_statement?_eq_none s number line hst, ← Line.isSome_slot? number s.address line,
      Line.slot?, hst]
    exact ⟨(List.append_nil _).symm, rfl⟩
  | some st =>
    rw [addLine_of_statement? s number line st hst]
    cases st.label? with
    | none => exact emit_eq s number _ line st hst
    | some name =>
      simpa only [address_define, slots_define] using
        emit_eq (s.define number (Text.trim line) name) number (Text.trim line) line st hst

theorem labels_addLine :
    (s.addLine (line, number)).labels =
      match Line.label? line with
      | some name => s.labels.insert name s.address
      | none => s.labels := by
  rw [Line.label?]
  cases hst : Line.statement? line with
  | none => rw [addLine_of_statement?_eq_none s number line hst]; rfl
  | some st =>
    rw [addLine_of_statement? s number line st hst, labels_emit, Option.bind_some]
    cases st.label? with
    | none => rfl
    | some name =>
      dsimp only
      rw [labels_define, Option.filter_some]
      by_cases hname : name = []
      · rw [if_pos hname, if_neg (by simpa using hname)]
      · rw [if_neg hname, if_pos (by simpa using hname)]

/-! ## Whole sources -/

/-- Reads the lines of a source. -/
def ofLines (lines : List Text) : Source := (lines.zipIdx 1).foldl addLine {}

theorem ofText_eq_ofLines (t : Text) : ofText t = ofLines (Text.lines t) := rfl

theorem ofLines_concat (lines : List Text) :
    ofLines (lines ++ [line]) = (ofLines lines).addLine (line, lines.length + 1) := by
  rw [ofLines, List.zipIdx_append, List.foldl_append, Nat.add_comm]
  rfl

theorem length_slots_ofLines (lines : List Text) :
    (ofLines lines).slots.toList.length = lines.countP Line.takesSlot := by
  induction lines using List.reverseRecOn with
  | nil => rfl
  | append_singleton lines line ih =>
    have hadd := ((ofLines lines).addLine_eq (lines.length + 1) line).1
    rw [ofLines_concat, hadd, List.length_append, ih, List.countP_append, List.countP_singleton,
      ← Line.isSome_slot? (lines.length + 1) (ofLines lines).address line]
    cases Line.slot? (lines.length + 1) (ofLines lines).address line <;> rfl

/-- The address after some lines. -/
theorem address_ofLines (lines : List Text) :
    (ofLines lines).address = BitVec.ofNat 32 (4 * lines.countP Line.takesSlot) := by
  induction lines using List.reverseRecOn with
  | nil => rfl
  | append_singleton lines line ih =>
    have hnext := ((ofLines lines).addLine_eq (lines.length + 1) line).2
    rw [ofLines_concat, hnext, ih, List.countP_append, List.countP_singleton]
    split_ifs
    · rw [Nat.mul_add, BitVec.ofNat_add]
      rfl
    · rfl

/-- The `k`-th slot is the one of the line with `k` slots before it. -/
theorem slots_ofLines (lines : List Text) (k : Nat) (slot : Slot)
    (hk : (ofLines lines).slots.toList[k]? = some slot) :
    slot.address = BitVec.ofNat 32 (4 * k) ∧
      ∃ i line, lines[i]? = some line ∧ slotsBefore lines i = k ∧
        Line.slot? (i + 1) slot.address line = some slot := by
  induction lines using List.reverseRecOn with
  | nil => exact absurd hk nofun
  | append_singleton lines line ih =>
    rw [ofLines_concat, ((ofLines lines).addLine_eq (lines.length + 1) line).1] at hk
    by_cases hlt : k < (ofLines lines).slots.toList.length
    · -- The slot was there before this line.
      rw [List.getElem?_append_left hlt] at hk
      obtain ⟨haddress, i, line', hline, hbefore, hslot⟩ := ih hk
      have hi : i < lines.length := (List.getElem?_eq_some_iff.1 hline).1
      refine ⟨haddress, i, line', ?_, ?_, hslot⟩
      · rw [List.getElem?_append_left hi, hline]
      · rw [slotsBefore_concat hi.le, hbefore]
    · -- The slot is that of this line.
      rw [List.getElem?_append_right (not_lt.1 hlt)] at hk
      cases hslot : Line.slot? (lines.length + 1) (ofLines lines).address line with
      | none =>
        rw [hslot] at hk
        contradiction
      | some slot' =>
        rw [hslot, Option.toList_some, List.getElem?_singleton] at hk
        split_ifs at hk with hzero
        obtain rfl := Option.some.inj hk
        have hkeq : lines.countP Line.takesSlot = k := by
          rw [← length_slots_ofLines]
          omega
        have hat : slot'.address = (ofLines lines).address := (Line.mnemonic?_of_slot? hslot).2.1
        refine ⟨?_, lines.length, line, List.getElem?_concat_length, ?_, ?_⟩
        · rw [hat, address_ofLines, hkeq]
        · rw [slotsBefore_concat le_rfl, slotsBefore, List.take_length, hkeq]
        · rw [hat, hslot]

/-! ## Labels -/

/-- Whether the line with index `i` is the last one that defines a label. -/
def LastDefinition (lines : List Text) (name : Text) (i : Nat) : Prop :=
  lines[i]?.bind Line.label? = some name ∧ ∀ j, i < j → lines[j]?.bind Line.label? ≠ some name

theorem LastDefinition.lt {lines : List Text} {name : Text} {i : Nat}
    (h : LastDefinition lines name i) : i < lines.length := by
  obtain ⟨line, hline, -⟩ := Option.bind_eq_some_iff.1 h.1
  exact (List.getElem?_eq_some_iff.1 hline).1

theorem lastDefinition_concat_of_eq {lines : List Text} {line name : Text}
    (h : Line.label? line = some name) (i : Nat) :
    LastDefinition (lines ++ [line]) name i ↔ i = lines.length := by
  have hlast : (lines ++ [line])[lines.length]?.bind Line.label? = some name := by
    rw [List.getElem?_concat_length]
    exact h
  constructor
  · intro hi
    have hlt := hi.lt
    rw [List.length_append, List.length_singleton] at hlt
    by_contra hne
    exact hi.2 lines.length (by omega) hlast
  · rintro rfl
    refine ⟨hlast, ?_⟩
    intro j hj hdef
    rw [List.getElem?_eq_none (by simpa using hj)] at hdef
    contradiction

theorem lastDefinition_concat_of_ne {lines : List Text} {line name : Text}
    (h : Line.label? line ≠ some name) (i : Nat) :
    LastDefinition (lines ++ [line]) name i ↔ LastDefinition lines name i := by
  have hat : ∀ j : Nat, (lines ++ [line])[j]?.bind Line.label? = some name ↔
      lines[j]?.bind Line.label? = some name := by
    intro j
    rw [List.getElem?_append]
    split_ifs with hj
    · rfl
    · rw [List.getElem?_eq_none (not_lt.1 hj), List.getElem?_singleton]
      split_ifs
      · exact iff_of_false h nofun
      · exact Iff.rfl
  rw [LastDefinition, LastDefinition, hat]
  simp only [ne_eq, hat]

theorem getElem?_labels_concat (lines : List Text) (name : Text) :
    (ofLines (lines ++ [line])).labels[name]? =
      if Line.label? line = some name then some (ofLines lines).address
      else (ofLines lines).labels[name]? := by
  rw [ofLines_concat, labels_addLine]
  cases Line.label? line with
  | none => rfl
  | some other => simp [Std.TreeMap.getElem?_insert]

/-- A label stands for four times the number of slots before its last definition. -/
theorem labels_ofLines_eq_some_iff (lines : List Text) (name : Text) (target : Word) :
    (ofLines lines).labels[name]? = some target ↔
      ∃ i, LastDefinition lines name i ∧ target = BitVec.ofNat 32 (4 * slotsBefore lines i) := by
  induction lines using List.reverseRecOn generalizing target with
  | nil =>
    refine iff_of_false (by simp [ofLines]) ?_
    rintro ⟨i, hi, -⟩
    exact Nat.not_lt_zero i hi.lt
  | append_singleton lines line ih =>
    rw [getElem?_labels_concat]
    split_ifs with hdef
    · -- This line redefines the label, to the next address.
      simp only [lastDefinition_concat_of_eq hdef, exists_eq_left, Option.some.injEq]
      rw [address_ofLines, slotsBefore_concat le_rfl, slotsBefore, List.take_length]
      exact eq_comm
    · simp only [lastDefinition_concat_of_ne hdef, ih]
      constructor
      · rintro ⟨i, hi, htarget⟩
        exact ⟨i, hi, by rw [slotsBefore_concat hi.lt.le, htarget]⟩
      · rintro ⟨i, hi, htarget⟩
        exact ⟨i, hi, by rw [htarget, slotsBefore_concat hi.lt.le]⟩

end Source

end RefHart
