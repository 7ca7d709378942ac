import Mathlib
import RefHart.Proofs.BitFields
import RefHart.Proofs.Canonical
import RefHart.Proofs.References

/-!
# Operands, each in its own field

**Theorem (`encode_isolates`).** Encoding never fails, and what is wrong with one operand stays with that
operand. The opcode fields are those of the encoding table. Each operand has its value in its own
field, cut down to the bits of the field, or zeros there if it is absent or cannot be read. If one
operand is exchanged for another text, then no bit of the word changes outside of its field.

The fields of an operand are listed as its `Part`s; only a memory operand has two. A pseudo-branch has
the fields of its canonical branch, the first two exchanged (`Mnemonic.partsAt`).

**Idea.** The word of an encoding is packed from numbers of which each depends on one token only
(`Operands.fields_readValues`), and of a packed word it is known which number brings which bit
(`OperandValues.getLsbD_pack`).
-/

namespace RefHart

/-! ## Readings -/

/-- What an operand, or a part of it, is read as. -/
inductive Reading where
  | register
  | csr
  | immediate
  /-- The offset of a memory operand. -/
  | offset
  /-- The base register of a memory operand. -/
  | base
  deriving DecidableEq, Repr

/-- The value of a token under a reading, if it has one. -/
def Reading.value? (reading : Reading) (labels : LabelTable) (address : Word) (t : Text) :
    Option Int :=
  match reading with
  | .register => (Register.ofToken? t).map fun r => (r : Int)
  | .csr => (Csr.ofToken? t).map fun c => (c : Int)
  | .immediate => (distance? labels address t).or (Operand.literal? t)
  | .offset => (Operand.memory? t).bind fun parsed =>
      if parsed.1 = [] then some 0
      else (distance? labels address parsed.1).or (Operand.literal? parsed.1)
  | .base => (Operand.memory? t).map fun parsed => (parsed.2 : Int)

/-- The number that an operand stands for: its value, or 0 if it is absent or has none. -/
def Reading.number (reading : Reading) (labels : LabelTable) (address : Word)
    (token? : Option Text) : Int :=
  (token?.bind (reading.value? labels address)).getD 0

/-- A part of an operand: how it is read and where in the word it goes. -/
structure Part where
  reading : Reading
  field : BitField
  deriving DecidableEq, Repr

/-- The operands of a format with their parts. -/
def Format.operands : Format → List (List Part)
  | .r => [[⟨.register, .rd⟩], [⟨.register, .rs1⟩], [⟨.register, .rs2⟩]]
  | .i => [[⟨.register, .rd⟩], [⟨.register, .rs1⟩], [⟨.immediate, .immI⟩]]
  | .iShift => [[⟨.register, .rd⟩], [⟨.register, .rs1⟩], [⟨.immediate, .rs2⟩]]
  | .load => [[⟨.register, .rd⟩], [⟨.base, .rs1⟩, ⟨.offset, .immI⟩]]
  | .s => [[⟨.register, .rs2⟩], [⟨.base, .rs1⟩, ⟨.offset, .immS⟩]]
  | .b => [[⟨.register, .rs1⟩], [⟨.register, .rs2⟩], [⟨.immediate, .immB⟩]]
  | .u => [[⟨.register, .rd⟩], [⟨.immediate, .immU⟩]]
  | .j => [[⟨.register, .rd⟩], [⟨.immediate, .immJ⟩]]
  | .csr => [[⟨.register, .rd⟩], [⟨.csr, .immI⟩], [⟨.register, .rs1⟩]]
  | .csrImm => [[⟨.register, .rd⟩], [⟨.csr, .immI⟩], [⟨.immediate, .rs1⟩]]
  | .system => []

namespace Mnemonic

/-- The operands of a mnemonic in their canonical order, with their parts. A `jalr` with two operands
is written like a load. -/
def operands (op : Mnemonic) (count : Nat) : List (List Part) :=
  if op = .jalr ∧ count = 2 then Format.load.operands else op.format.operands

/-- Where among the canonical operands the one at an index is. -/
def canonicalIndex (op : Mnemonic) (count index : Nat) : Nat :=
  if op.isPseudo ∧ 2 ≤ count then Equiv.swap 0 1 index else index

/-- The parts of the operand at an index among `count` operands; none past those of the format. -/
def partsAt (op : Mnemonic) (count index : Nat) : List Part :=
  (op.operands count).getD (op.canonicalIndex count index) []

/-- Whether a bit of the word belongs to the operand at an index among `count` operands. -/
def Covers (op : Mnemonic) (count index p : Nat) : Prop :=
  ∃ part ∈ op.partsAt count index, part.field.Covers p

theorem operands_canonical (op : Mnemonic) (count : Nat) :
    op.canonical.operands count = op.operands count := by
  cases op <;> rfl

theorem canonicalIndex_canonicalIndex (op : Mnemonic) (count index : Nat) :
    op.canonicalIndex count (op.canonicalIndex count index) = index := by
  unfold canonicalIndex
  split_ifs
  · rw [Equiv.swap_apply_self]
  · rfl

end Mnemonic

@[simp] theorem length_canonicalOperands (op : Mnemonic) (tokens : List Text) :
    (canonicalOperands op tokens).length = tokens.length := by
  unfold canonicalOperands
  split_ifs
  · rcases tokens with _ | ⟨a, _ | ⟨b, rest⟩⟩ <;> rfl
  · rfl

theorem getElem?_exchangeFirstTwo {α : Type} {l : List α} (h : 2 ≤ l.length) (index : Nat) :
    (exchangeFirstTwo l)[index]? = l[Equiv.swap 0 1 index]? := by
  obtain _ | ⟨a, _ | ⟨b, rest⟩⟩ := l
  · contradiction
  · simp at h
  · match index with
    | 0 => rw [Equiv.swap_apply_left]; rfl
    | 1 => rw [Equiv.swap_apply_right]; rfl
    | k + 2 => rw [Equiv.swap_apply_of_ne_of_ne (by omega) (by omega)]; rfl

theorem getElem?_canonicalOperands (op : Mnemonic) (tokens : List Text) (index : Nat) :
    (canonicalOperands op tokens)[index]? = tokens[op.canonicalIndex tokens.length index]? := by
  unfold canonicalOperands Mnemonic.canonicalIndex
  by_cases hpseudo : op.isPseudo
  · by_cases hcount : 2 ≤ tokens.length
    · rw [if_pos hpseudo, if_pos ⟨hpseudo, hcount⟩, getElem?_exchangeFirstTwo hcount]
    · rw [if_pos hpseudo, if_neg fun h => hcount h.2]
      rcases tokens with _ | ⟨a, _ | ⟨b, rest⟩⟩
      · rfl
      · rfl
      · simp at hcount
  · rw [if_neg hpseudo, if_neg fun h => hpseudo h.1]

/-! ## Numbers from tokens -/

theorem Noted.value_ofOption {α : Type} (a? : Option α) (substitute : α) (e : AssemblyError) :
    (ofOption a? substitute e).value = a?.getD substitute := by
  cases a? <;> rfl

namespace Operands

variable (o : Operands) (index : Nat)

/-- The number that the operand at an index stands for. -/
def number (reading : Reading) : Int := reading.number o.labels o.address o.tokens[index]?

theorem value_read {α : Type} (substitute : α) (reading : Text → Noted α) :
    (o.read index substitute reading).value =
      (o.tokens[index]?.map fun t => (reading t).value).getD substitute := by
  unfold read token
  cases o.tokens[index]? <;> rfl

/-- A natural number read from a token, as an integer. -/
theorem cast_value_read (f : Text → Option Nat) (e : Text → AssemblyError) :
    ((o.read index 0 fun t => .ofOption (f t) 0 (e t)).value : Int) =
      (o.tokens[index]?.bind fun t => (f t).map fun n => (n : Int)).getD 0 := by
  rw [value_read]
  cases o.tokens[index]? with
  | none => rfl
  | some t =>
    rw [Option.map_some, Option.getD_some, Noted.value_ofOption, Option.bind_some]
    cases f t <;> rfl

theorem value_register : ((o.register index).value : Int) = o.number index .register :=
  o.cast_value_read index Register.ofToken? .badRegister

theorem value_csr : ((o.csr index).value : Int) = o.number index .csr :=
  o.cast_value_read index Csr.ofToken? .badCsr

theorem value_immediateOf (t : Text) :
    (o.immediateOf t).value =
      ((distance? o.labels o.address t).or (Operand.literal? t)).getD 0 := by
  rw [immediateOf, Noted.value_ofOption, immediate?_eq_or]

theorem value_immediate : (o.immediate index).value = o.number index .immediate := by
  rw [immediate, value_read, number, Reading.number]
  cases o.tokens[index]? with
  | none => rfl
  | some t => exact o.value_immediateOf t

theorem value_memory :
    (o.memory index).value.1 = o.number index .offset ∧
      ((o.memory index).value.2 : Int) = o.number index .base := by
  rw [memory, value_read, number, number, Reading.number, Reading.number]
  cases o.tokens[index]? with
  | none => exact ⟨rfl, rfl⟩
  | some t =>
    simp only [Option.map_some, Option.getD_some, Option.bind_some, Reading.value?]
    cases Operand.memory? t with
    | none => exact ⟨rfl, rfl⟩
    | some parsed =>
      obtain ⟨_ | ⟨c, offset⟩, base⟩ := parsed
      · exact ⟨rfl, rfl⟩
      · exact ⟨o.value_immediateOf (c :: offset), rfl⟩

/-- The numbers of the operands with their fields, operand by operand. -/
def fields : List (BitField × Int) :=
  (o.mnemonic.operands o.tokens.length).zipIdx.flatMap fun (parts, index) =>
    parts.map fun part => (part.field, o.number index part.reading)

/-- Each number that encoding reads comes from one operand. -/
theorem fields_readValues : o.readValues.fields = o.fields := by
  have hmemory := o.value_memory 1
  unfold readValues fields Mnemonic.operands
  -- A `jalr` with two operands reads them in the way a load does.
  by_cases hjalr : o.mnemonic = .jalr ∧ o.tokens.length = 2
  · have hformat : o.mnemonic.format = .i := by rw [hjalr.1]; rfl
    rw [hformat, if_pos hjalr]
    simp [jumpBase, hjalr, OperandValues.fields, Format.operands, value_register, hmemory]
  · rw [if_neg hjalr]
    cases o.mnemonic.format <;>
      simp [jumpBase, hjalr, OperandValues.fields, Format.operands, value_register, value_csr,
        value_immediate, hmemory]

/-- A bit of an encoded word is what the encoding table and the operands bring. -/
theorem getLsbD_encode (p : Nat) :
    o.encode.value.getLsbD p = (o.mnemonic.tableFields ++ o.fields).any fun x => x.1.bit x.2 p := by
  rw [value_encode, OperandValues.getLsbD_pack o.format_readValues, fields_readValues]

theorem holds_encode {part : Part} {index : Nat}
    (h : part ∈ (o.mnemonic.operands o.tokens.length).getD index []) :
    part.field.Holds o.encode.value (o.number index part.reading) := by
  rw [value_encode]
  refine OperandValues.holds_pack o.format_readValues (List.mem_append_right _ ?_)
  rw [fields_readValues, fields, List.mem_flatMap]
  cases hparts : (o.mnemonic.operands o.tokens.length)[index]? with
  | none => simp [List.getD, hparts] at h
  | some parts =>
    refine ⟨(parts, index), List.mem_zipIdx_iff_getElem?.2 hparts, List.mem_map.2 ⟨part, ?_, rfl⟩⟩
    simpa [List.getD, hparts] using h

variable {o}

/-- A bit is changed only by the operands that it belongs to. -/
theorem getLsbD_encode_congr {tokens : List Text} (hlength : tokens.length = o.tokens.length)
    {index : Nat} (htokens : ∀ j ≠ index, tokens[j]? = o.tokens[j]?) {p : Nat}
    (hp : ∀ part ∈ (o.mnemonic.operands o.tokens.length).getD index [], ¬ part.field.Covers p) :
    { o with tokens }.encode.value.getLsbD p = o.encode.value.getLsbD p := by
  rw [getLsbD_encode, getLsbD_encode, List.any_append, List.any_append]
  congr 1
  unfold fields
  dsimp only
  rw [hlength, List.any_flatMap, List.any_flatMap, Bool.eq_iff_iff, List.any_eq_true,
    List.any_eq_true]
  refine exists_congr fun x => and_congr_right fun hx => ?_
  obtain ⟨parts, j⟩ := x
  have hparts := List.mem_zipIdx_iff_getElem?.1 hx
  by_cases hj : j = index
  · -- Neither text brings anything to the bit.
    subst hj
    have hnone : ∀ number : Part → Int,
        (parts.map fun part => (part.field, number part)).any (fun y => y.1.bit y.2 p) = false := by
      intro number
      simp only [List.any_map, List.any_eq_false, Function.comp_apply]
      intro part hpart
      rw [BitField.bit_of_not_covers (hp part (by simpa [List.getD, hparts] using hpart))]
      exact Bool.false_ne_true
    rw [hnone, hnone]
  · unfold number
    dsimp only
    rw [htokens j hj]

end Operands

/-! ## Encoded words -/

open Instruction

variable (op : Mnemonic) (tokens : List Text) (labels : LabelTable) (address : Word)

/-- The opcode fields are those of the canonical mnemonic, where the format has them. -/
theorem tableFields_encode :
    let word := (encode op tokens labels address).value
    let row := op.canonical.description
    field word 6 0 = row.opcode.code ∧
      (row.format ∉ [.u, .j] → field word 14 12 = row.funct3) ∧
      (row.format ∈ [.r, .iShift] → field word 31 25 = row.funct7) := by
  intro word row
  have hop : (decode word).op = some op.canonical := op_decode_encode op tokens labels address
  have hbits : HasTableBits op.canonical word :=
    (canonicalWord_eq_self_iff hop).1 (canonicalWord_encode op tokens labels address)
  refine ⟨opcode_of_op_decode hop, ?_, ?_⟩
  · intro hformat
    by_cases hjalr : op.canonical = .jalr
    · have hi : op.canonical.format = .i := by rw [hjalr]; rfl
      simp only [HasTableBits, hi] at hbits
      exact hbits hjalr
    · exact funct3_of_op_decode hop (not_ignoresFunct3 hjalr hformat)
  · intro hformat
    have hr : row.format = .r ∨ row.format = .iShift := by simpa using hformat
    rcases hr with hr | hr
    · have hr' : op.canonical.format = .r := hr
      simpa only [HasTableBits, hr'] using hbits
    · have hr' : op.canonical.format = .iShift := hr
      simpa only [HasTableBits, hr'] using hbits

/-- Each operand decides the bits of its own fields and no others, with zeros if it cannot be read;
the fixed fields come from the mnemonic. -/
theorem encode_isolates :
    let word := (encode op tokens labels address).value
    let row := op.canonical.description
    (field word 6 0 = row.opcode.code ∧
      (row.format ∉ [.u, .j] → field word 14 12 = row.funct3) ∧
      (row.format ∈ [.r, .iShift] → field word 31 25 = row.funct7)) ∧
    (∀ index, ∀ part ∈ op.partsAt tokens.length index,
      match tokens[index]?.bind (part.reading.value? labels address) with
      | some v => part.field.Holds word v
      | none => ∀ p, part.field.Covers p → word.getLsbD p = false) ∧
    ∀ index tokens', tokens'.length = tokens.length →
      (∀ j ≠ index, tokens'[j]? = tokens[j]?) → ∀ p, ¬ op.Covers tokens.length index p →
        (encode op tokens' labels address).value.getLsbD p = word.getLsbD p := by
  intro word row
  let o : Operands := ⟨op.canonical, canonicalOperands op tokens, labels, address⟩
  have hcount : o.tokens.length = tokens.length := length_canonicalOperands op tokens
  have hoperands : o.mnemonic.operands o.tokens.length = op.operands tokens.length := by
    rw [hcount]
    exact op.operands_canonical tokens.length
  refine ⟨tableFields_encode op tokens labels address, ?_, ?_⟩
  · intro index part hpart
    have hholds : part.field.Holds word (o.number (op.canonicalIndex tokens.length index)
        part.reading) := o.holds_encode (hoperands ▸ hpart)
    have htoken : o.tokens[op.canonicalIndex tokens.length index]? = tokens[index]? := by
      rw [getElem?_canonicalOperands, Mnemonic.canonicalIndex_canonicalIndex]
    rw [Operands.number, Reading.number, htoken] at hholds
    cases hvalue : tokens[index]?.bind (part.reading.value? labels address) with
    | some v =>
      rw [hvalue] at hholds
      exact hholds
    | none =>
      rw [hvalue] at hholds
      exact fun p hp => BitField.getLsbD_of_holds_zero hholds hp
  · intro index tokens' hlength htokens p hp
    have hagree : ∀ j ≠ op.canonicalIndex tokens.length index,
        (canonicalOperands op tokens')[j]? = o.tokens[j]? := by
      intro j hj
      rw [getElem?_canonicalOperands, getElem?_canonicalOperands, hlength]
      refine htokens _ fun heq => hj ?_
      rw [← heq, Mnemonic.canonicalIndex_canonicalIndex]
    refine Operands.getLsbD_encode_congr (o := o) ?_ hagree fun part hpart hcovers => ?_
    · rw [length_canonicalOperands, hcount, hlength]
    · rw [hoperands] at hpart
      exact hp ⟨part, hpart, hcovers⟩

/-- In a pseudo-branch with a second register that does not exist and an offset out of range, the first
register stands in `rs2`, `rs1` is 0 and takes any register in its place, and the offset is cut
down. -/
theorem encode_isolates_bgt :
    let tokens : List Text := ["x1", "q7", "-5000"]
    let word := (encode .bgt tokens ∅ 0).value
    field word 14 12 = Mnemonic.blt.description.funct3 ∧ BitField.rs2.Holds word 1 ∧
      (∀ p, BitField.rs1.Covers p → word.getLsbD p = false) ∧ BitField.immB.Holds word (-5000) ∧
      ∀ p, ¬ BitField.rs1.Covers p →
        (encode .bgt ["x1", "x9", "-5000"] ∅ 0).value.getLsbD p = word.getLsbD p := by
  intro tokens word
  obtain ⟨⟨-, hfunct3, -⟩, hparts, hisolated⟩ := encode_isolates .bgt tokens ∅ 0
  have hfirst := hparts 0 ⟨.register, .rs2⟩ (by decide)
  have hsecond := hparts 1 ⟨.register, .rs1⟩ (by decide)
  have hthird := hparts 2 ⟨.immediate, .immB⟩ (by decide)
  have hone : tokens[0]?.bind (Reading.register.value? ∅ 0) = some 1 := by decide
  have hnone : tokens[1]?.bind (Reading.register.value? ∅ 0) = none := by decide
  have hoffset : tokens[2]?.bind (Reading.immediate.value? ∅ 0) = some (-5000) := by decide
  simp only [hone, hnone, hoffset] at hfirst hsecond hthird
  have hagree : ∀ j ≠ 1, (["x1", "x9", "-5000"] : List Text)[j]? = tokens[j]? := by
    intro j hj
    match j with
    | 0 => rfl
    | 1 => contradiction
    | j + 2 => rfl
  have hfields : Mnemonic.bgt.partsAt 3 1 = [⟨.register, .rs1⟩] := by decide
  refine ⟨hfunct3 (by decide), hfirst, hsecond, hthird, fun p hp => ?_⟩
  refine hisolated 1 ["x1", "x9", "-5000"] (by decide) hagree p ?_
  rintro ⟨part, hpart, hcovers⟩
  obtain rfl := List.mem_singleton.1 (hfields ▸ hpart)
  exact hp hcovers

-- A memory operand with a good base keeps it, whatever is wrong with the offset.
example : (encode .sw ["x5", "nowhere(x2)"] ∅ 0).value = (encode .sw ["x5", "0(x2)"] ∅ 0).value := by
  decide

end RefHart
