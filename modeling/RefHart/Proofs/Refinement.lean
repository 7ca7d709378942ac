import Mathlib
import RefHart.Proofs.Assembled
import RefHart.Proofs.Effects
import RefHart.Proofs.Running

/-!
# Machines refine source programs

**Theorem (`step_assemble`).** A machine that is loaded with a program without errors does, at each of
the program's addresses, what the source says there: the word that it fetches is the emitted one, and
its step is that of the instruction on the values that its operand tokens denote. A transfer of control
to a label leads to the first instruction that is not on a line before the label's last definition.

The instruction memory of a run never changes, so the words stay where loading has put them
(`fetch_of_imem_eq`). Each of them is a slot's encoded instruction, whose effect is that of the
instruction as it is written (`effect_decode_encode`), and the slots are placed as the labels assume
(`Source.slots_ofLines`, `Source.labels_ofLines_eq_some_iff`).
-/

namespace RefHart

open Hart

/-! ## Steps by effects -/

namespace Machine

/-- The machine after an instruction with the given effect. -/
def advance (m : Machine) (e : Effect) : Machine :=
  { m with
    hart := (m.hart.apply m.dmem e).1
    dmem := (m.hart.apply m.dmem e).2
    cycles := m.cycles + 1 }

/-- A step in which the instruction at the program counter has the given effect. -/
def stepWith (m : Machine) (e : Effect) : Except Halt Machine :=
  match e.access? with
  | some (address, width) =>
    if m.hart.config.outOfRange = .fault ∧ ¬ m.dmem.Holds address width then
      .error (.fault m.hart.pc address)
    else .ok (m.advance e)
  | none => .ok (m.advance e)

theorem step_eq_stepWith {m : Machine} (h : m.Fetches) (hword : m.word ≠ 0) :
    m.step = m.stepWith (m.hart.effect m.instruction) := by
  rw [step, halt?_of_fetches h, if_neg hword, fault?, Hart.fault?, stepWith]
  cases (m.hart.effect m.instruction).access? with
  | none => rfl
  | some access =>
    dsimp only
    split_ifs <;> rfl

end Machine

/-! ## Targets of transfers -/

/-- Whether the instruction transfers control to the target that it is written with. -/
def OperandValues.transfers (op : Mnemonic) (h : Hart) : OperandValues → Bool
  | branch rs1 rs2 _ => op.relation (h.register rs1) (h.register rs2)
  | jump _ _ => true
  | _ => false

theorem Word.add_ofInt_sub (pc target : Word) :
    pc + BitVec.ofInt 32 ((target.toNat : Int) - pc.toNat) = target := by
  apply BitVec.eq_of_toNat_eq
  rw [BitVec.toNat_add, BitVec.toNat_ofInt]
  have hpc := pc.isLt
  have htarget := target.isLt
  omega

/-- The target of a branch or jump is its last operand. -/
theorem Operands.exists_target_of_values? {o : Operands} {v : OperandValues}
    (h : o.values? = some v) (rs1 rs2 rd : Nat) (offset : Int)
    (hv : v = .branch rs1 rs2 offset ∨ v = .jump rd offset) :
    ∃ t, o.tokens.getLast? = some t ∧ o.immediate? t = some offset := by
  rcases hv with rfl | rfl
  · cases values?_eq_some_iff.1 h with
    | branch _ ht _ _ hoffset => exact ⟨_, by rw [ht]; rfl, hoffset⟩
  · cases values?_eq_some_iff.1 h with
    | jump _ ht _ hoffset => exact ⟨_, by rw [ht]; rfl, hoffset⟩

/-- A transfer to a label leads to the label's address. -/
theorem stepWith_of_transfers {m : Machine} {op : Mnemonic} {tokens : List Text}
    {labels : LabelTable} {v : OperandValues} {name : Text} {target : Word}
    (hv : Operands.values? ⟨op, tokens, labels, m.hart.pc⟩ = some v)
    (hname : tokens.getLast? = some name) (hlabel : labels[name]? = some target)
    (htransfers : v.transfers op m.hart) :
    ∃ m', m.stepWith (v.effect op m.hart) = .ok m' ∧ m'.hart.pc = target ∧ m'.imem = m.imem := by
  have hoffset {t : Text} {offset : Int} (ht : tokens.getLast? = some t)
      (h : Operands.immediate? ⟨op, tokens, labels, m.hart.pc⟩ t = some offset) :
      m.hart.pc + BitVec.ofInt 32 offset = target := by
    obtain rfl := Option.some.inj (hname.symm.trans ht)
    rw [Operands.immediate?, hlabel] at h
    obtain rfl := Option.some.inj h
    exact Word.add_ofInt_sub m.hart.pc target
  cases v with
  | branch rs1 rs2 offset =>
    obtain ⟨t, ht, himm⟩ := Operands.exists_target_of_values? hv rs1 rs2 0 offset (.inl rfl)
    rw [OperandValues.transfers] at htransfers
    refine ⟨m.advance (.jump target), ?_, rfl, rfl⟩
    rw [OperandValues.effect, if_pos htransfers, hoffset ht himm]
    rfl
  | jump rd offset =>
    obtain ⟨t, ht, himm⟩ := Operands.exists_target_of_values? hv 0 0 rd offset (.inr rfl)
    refine ⟨m.advance (.write rd (m.hart.pc + 4) target), ?_, rfl, rfl⟩
    rw [OperandValues.effect, hoffset ht himm]
    rfl
  | _ => contradiction

/-! ## Written programs -/

/-- The `k`-th instruction of a source is the one on the line with `k` slots before it. -/
structure Written (t : Text) (k : Nat) (slot : Slot) (op : Mnemonic) (v : OperandValues) : Prop where
  line : ∃ i line, (Text.lines t)[i]? = some line ∧ slotsBefore (Text.lines t) i = k ∧
    Line.slot? (i + 1) (BitVec.ofNat 32 (4 * k)) line = some slot
  mnemonic : Mnemonic.ofName? slot.head = some op
  values : Operands.values? ⟨op, slot.operands, resolveLabels t, BitVec.ofNat 32 (4 * k)⟩ = some v

/-- A label names the instruction with index `q`: as many slots are taken before its last definition,
and the instructions from there on are those on the line of that definition and the lines after. -/
def LabelsIndex (t : Text) (name : Text) (q : Nat) : Prop :=
  ∃ i, Source.LastDefinition (Text.lines t) name i ∧ q = slotsBefore (Text.lines t) i ∧
    ∀ (r : Nat) (hr : r < (assemble t).lines.length), q ≤ r ↔ i < (assemble t).lines[r].line

/-! ## Loaded programs -/

theorem Program.length_words (p : Program) : p.words.length = p.lines.length := List.length_map ..

theorem Program.length_bytes (p : Program) : p.bytes.length = 4 * p.lines.length := by
  rw [bytes, Word.length_flatMap_bigBytes, length_words]

section Loaded

variable {t : Text} {config : MachineConfig} {data : List Byte} {j k : Nat} {m : Machine}

theorem lines_assemble (t : Text) :
    (assemble t).lines =
      (Source.ofText t).slots.toList.map (·.programLine (Source.ofText t).labels) := rfl

/-- At the program's addresses a machine that holds the program fetches its words. -/
theorem fetch_of_imem_eq (hsize : 4 * (assemble t).lines.length ≤ config.imemSize)
    (himem : m.imem = (Memory.zeros config.imemSize .big).load (assemble t).bytes)
    (hk : k < (assemble t).lines.length) (hpc : m.hart.pc.toNat = 4 * k) :
    m.imem.Holds m.hart.pc 4 ∧ m.hart.fetch m.imem = .ok m.word ∧
      m.word = (assemble t).lines[k].word := by
  have hlength := (assemble t).length_words
  have hget := Memory.get_load_flatMap_bigBytes (Memory.zeros config.imemSize .big) rfl
    (assemble t).words (by rw [Memory.size_zeros]; omega) (k := k) (by omega) hpc
  have hholds : m.imem.Holds m.hart.pc 4 := by
    rw [himem, Memory.Holds, Memory.size_load, Memory.size_zeros]
    omega
  refine ⟨hholds, Machine.fetch_of_holds hholds, BitVec.eq_of_toNat_eq ?_⟩
  rw [Machine.word, himem, Program.bytes, hget, BitVec.ofNat_toNat, BitVec.setWidth_eq]
  simp only [Program.words, List.getElem_map]

/-- The source line from which a word of a program comes. -/
theorem exists_slot_of_lt (hk : k < (assemble t).lines.length) :
    ∃ i line slot, (Text.lines t)[i]? = some line ∧ slotsBefore (Text.lines t) i = k ∧
      Line.slot? (i + 1) (BitVec.ofNat 32 (4 * k)) line = some slot ∧
      slot ∈ (Source.ofText t).slots.toList ∧
      (assemble t).lines[k] = slot.programLine (Source.ofText t).labels := by
  rw [lines_assemble, List.length_map] at hk
  obtain ⟨haddress, i, line, hline, hbefore, hslot⟩ :=
    Source.slots_ofLines (Text.lines t) k (Source.ofText t).slots.toList[k]
      (List.getElem?_eq_getElem hk)
  refine ⟨i, line, _, hline, hbefore, haddress ▸ hslot, List.getElem_mem hk, ?_⟩
  simp only [lines_assemble, List.getElem_map]

/-- The instructions from a line on are those with at least as many slots before them. -/
theorem lt_line_iff (hk : k < (assemble t).lines.length) (i : Nat) :
    i < (assemble t).lines[k].line ↔ slotsBefore (Text.lines t) i ≤ k := by
  obtain ⟨i', line, slot, hline, hbefore, hslot, -, hlineAt⟩ := exists_slot_of_lt hk
  have htakes : Line.takesSlot line := by
    rw [← Line.isSome_slot? (i' + 1) (BitVec.ofNat 32 (4 * k)), hslot]
    rfl
  have hnumber : (assemble t).lines[k].line = i' + 1 := by
    rw [hlineAt]
    exact (Line.mnemonic?_of_slot? hslot).1
  rw [hnumber, ← hbefore, slotsBefore_le_iff hline htakes, Nat.lt_succ_iff]

theorem slotsBefore_le_length (t : Text) (i : Nat) :
    slotsBefore (Text.lines t) i ≤ (assemble t).lines.length := by
  rw [lines_assemble, List.length_map, Source.ofText_eq_ofLines, Source.length_slots_ofLines]
  exact (List.take_sublist i _).countP_le

/-- The address of a label in a program that fits. -/
theorem exists_lastDefinition_of_label (hsize : 4 * (assemble t).lines.length < 2 ^ 32) {name : Text}
    {target : Word} (h : (assemble t).labels[name]? = some target) :
    ∃ i, Source.LastDefinition (Text.lines t) name i ∧ target.toNat = 4 * slotsBefore (Text.lines t) i := by
  obtain ⟨i, hi, rfl⟩ := (Source.labels_ofLines_eq_some_iff (Text.lines t) name target).1 h
  have hle := slotsBefore_le_length t i
  refine ⟨i, hi, ?_⟩
  rw [BitVec.toNat_ofNat]
  omega

/-- Every word of a program without errors is encoded from a line of the source. -/
theorem exists_encoded (herrors : (assemble t).hasErrors = false)
    (hk : k < (assemble t).lines.length) :
    ∃ i line slot op, (Text.lines t)[i]? = some line ∧ slotsBefore (Text.lines t) i = k ∧
      Line.slot? (i + 1) (BitVec.ofNat 32 (4 * k)) line = some slot ∧
      Mnemonic.ofName? slot.head = some op ∧
      (encode op slot.operands (resolveLabels t) (BitVec.ofNat 32 (4 * k))).errors = [] ∧
      (assemble t).lines[k].word =
        (encode op slot.operands (resolveLabels t) (BitVec.ofNat 32 (4 * k))).value := by
  obtain ⟨i, line, slot, hline, hbefore, hslot, hmem, hlineAt⟩ := exists_slot_of_lt hk
  obtain ⟨op, hop, hencode, hword⟩ := Source.exists_mnemonic_of_hasErrors herrors hmem
  obtain ⟨-, haddress, hhead⟩ := Line.mnemonic?_of_slot? hslot
  rw [haddress] at hencode hword
  exact ⟨i, line, slot, op, hline, hbefore, hslot, hhead ▸ hop, hencode, by rw [hlineAt, hword]; rfl⟩

/-- Every word of a program without errors does what the source says. -/
theorem exists_written (herrors : (assemble t).hasErrors = false)
    (hk : k < (assemble t).lines.length) :
    ∃ slot op v, Written t k slot op v ∧ (assemble t).lines[k].word ≠ 0 ∧
      ∀ h : Hart, h.effect (.decode (assemble t).lines[k].word) = v.effect op h := by
  obtain ⟨i, line, slot, op, hline, hbefore, hslot, hop, hencode, hword⟩ := exists_encoded herrors hk
  obtain ⟨v, hv, -, heffect⟩ := effect_decode_encode hencode
  rw [hword]
  exact ⟨slot, op, v, ⟨⟨i, line, hline, hbefore, hslot⟩, hop, hv⟩, encode_ne_zero _ _ _ _, heffect⟩

/-- At the address of the `k`-th instruction a machine fetches the emitted word and steps as the
source says there. A transfer to a label leads to the instruction that it marks. -/
theorem step_assemble (herrors : (assemble t).hasErrors = false)
    (hsize : 4 * (assemble t).lines.length ≤ config.imemSize)
    (hbelow : config.imemSize < haltThreshold.toNat)
    (hreaches : Machine.Reaches ((Machine.reset config).load (assemble t).bytes data) j m)
    (hk : k < (assemble t).lines.length) (hpc : m.hart.pc.toNat = 4 * k)
    (hcycles : m.cycles < m.maxCycles) :
    m.hart.fetch m.imem = .ok (assemble t).lines[k].word ∧ m.hart.config = config.hart ∧
      ∃ slot op v, Written t k slot op v ∧ m.step = m.stepWith (v.effect op m.hart) ∧
        ∀ name target, slot.operands.getLast? = some name →
          (assemble t).labels[name]? = some target → v.transfers op m.hart →
          ∃ m' q, m.step = .ok m' ∧ m'.hart.pc = target ∧ target.toNat = 4 * q ∧
            LabelsIndex t name q ∧
            ∀ hq : q < (assemble t).lines.length,
              m'.hart.fetch m'.imem = .ok (assemble t).lines[q].word := by
  have himem : m.imem = (Memory.zeros config.imemSize .big).load (assemble t).bytes :=
    hreaches.imem_eq
  have haddress : m.hart.pc = BitVec.ofNat 32 (4 * k) := by
    rw [← hpc, BitVec.ofNat_toNat, BitVec.setWidth_eq]
  obtain ⟨hholds, hfetch, hword⟩ := fetch_of_imem_eq hsize himem hk hpc
  have hfetches : m.Fetches := by
    refine ⟨BitVec.lt_def.2 ?_, hcycles, hholds⟩
    omega
  obtain ⟨slot, op, v, hwritten, hne, heffect⟩ := exists_written herrors hk
  have hstep : m.step = m.stepWith (v.effect op m.hart) := by
    rw [Machine.step_eq_stepWith hfetches (hword ▸ hne), Machine.instruction, hword, heffect]
  refine ⟨hword ▸ hfetch, hreaches.config_eq, slot, op, v, hwritten, hstep, ?_⟩
  -- A transfer to a label leads to the label's address, which holds an emitted word again.
  intro name target hname hlabel htransfers
  have hvalues := hwritten.values
  rw [← haddress] at hvalues
  obtain ⟨m', hstep', hpc', himem'⟩ := stepWith_of_transfers hvalues hname hlabel htransfers
  obtain ⟨i, hi, htarget⟩ := exists_lastDefinition_of_label (by omega) hlabel
  refine ⟨m', slotsBefore (Text.lines t) i, hstep.trans hstep', hpc', htarget,
    ⟨i, hi, rfl, fun r hr => (lt_line_iff hr i).symm⟩, ?_⟩
  intro hq
  obtain ⟨-, hfetch', hword'⟩ := fetch_of_imem_eq hsize (himem'.trans himem) hq (hpc' ▸ htarget)
  rw [hfetch', hword']

/-- A jump over an instruction. -/
theorem step_assemble_jal :
    let t : Text := "jal x0, end\nadd x1, x2, x3\nend: ecall"
    let m := (Machine.reset {}).load (assemble t).bytes []
    (assemble t).hasErrors = false ∧
      ∃ m', m.step = .ok m' ∧ m'.hart.pc = 8 ∧ LabelsIndex t "end" 2 := by
  intro t m
  have herrors : (assemble t).hasErrors = false := by decide +kernel
  have hlength : (assemble t).lines.length = 3 := by decide +kernel
  have hreaches : Machine.Reaches ((Machine.reset {}).load (assemble t).bytes []) 0 m := .refl
  obtain ⟨-, -, slot, op, v, hwritten, -, htransfer⟩ :=
    step_assemble herrors (by rw [hlength]; decide) (by decide) hreaches (k := 0)
      (by rw [hlength]; decide) rfl (by decide)
  obtain ⟨i, line, hline, hbefore, hslot⟩ := hwritten.line
  have hone : slotsBefore (Text.lines t) 1 = 1 := by decide +kernel
  obtain rfl : i = 0 := by
    by_contra hne
    have hmono := slotsBefore_mono (Text.lines t) (Nat.one_le_iff_ne_zero.2 hne)
    omega
  have hfirst : (Text.lines t)[0]? = some ("jal x0, end" : Text) := by decide +kernel
  obtain rfl := Option.some.inj (hfirst.symm.trans hline)
  have hread : Line.slot? 1 0 ("jal x0, end" : Text) =
      some ⟨1, 0, "jal x0, end", "jal", some .jal, ["x0", "end"]⟩ := by decide +kernel
  obtain rfl := Option.some.inj (hread.symm.trans hslot)
  have hjal : Mnemonic.ofName? "jal" = some .jal := by decide +kernel
  obtain rfl := Option.some.inj (hjal.symm.trans hwritten.mnemonic)
  have hjump : Operands.values? ⟨.jal, ["x0", "end"], resolveLabels t, 0⟩ = some (.jump 0 8) := by
    decide +kernel
  obtain rfl := Option.some.inj (hjump.symm.trans hwritten.values)
  have hlabel : (assemble t).labels[("end" : Text)]? = some 8 := by decide +kernel
  obtain ⟨m', q, hstep, hpc, hq, hindex, -⟩ := htransfer "end" 8 rfl hlabel rfl
  obtain rfl : q = 2 := by
    have height : (8 : Word).toNat = 8 := rfl
    omega
  exact ⟨herrors, m', hstep, hpc, hindex⟩

end Loaded

end RefHart
