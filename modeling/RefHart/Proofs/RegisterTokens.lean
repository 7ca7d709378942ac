import Mathlib
import RefHart.Proofs.Denotation
import RefHart.Proofs.Grammar
import RefHart.Proofs.Isolation

/-!
# Register tokens

In any letter case, a token names a register if it is the register's name, or `x` and a decimal
number below 32 (`Register.Token`).

**Theorem (`register_grammar`).** These tokens are read as the registers that they name, and besides
them only those that have a plus sign between the `x` and the number (`Register.Signed`). Wherever
an instruction has a register, a token that is not read as one is reported, and so is a memory
operand without a register for its base. No other token is reported so.

A number does not stand in the way of a name, since no name starts with an `x`
(`number?_of_ofAbiName?`); hence a reader with bounded numbers names the same registers
(`ofTokenWithin?_eq_ofToken?`). What an instruction reports is put together from what its operands
report, and none of them reports a refusal but that of its own reading
(`refusal_mem_errors_register`, `refusal_mem_errors_csr`, `refusal_mem_errors_memory`).
-/

namespace RefHart

/-! ## Letter case -/

namespace Text

/-- A small letter comes from itself or from its capital. -/
theorem eq_or_eq_toUpper_toLower (c : Char) : c = c.toLower ∨ c = c.toLower.toUpper := by
  by_cases h : 'A'.val ≤ c.val ∧ c.val ≤ 'Z'.val
  · have hmin : 65 ≤ c.toNat := UInt32.le_iff_toNat_le.1 h.1
    have hmax : c.toNat ≤ 90 := UInt32.le_iff_toNat_le.1 h.2
    rw [← Char.ofNat_toNat c]
    interval_cases c.toNat <;> decide
  · rw [Char.toLower, dif_neg h]
    exact .inl rfl

/-- The first character of a text in small letters is a small letter's, in either case. -/
theorem toLower_eq_cons_iff {t rest : Text} {c : Char} (hc : c.toLower = c)
    (hupper : c.toUpper.toLower = c) : t.toLower = c :: rest ↔
      ∃ (x : Char) (digits : Text), (x = c ∨ x = c.toUpper) ∧ t = x :: digits ∧
        digits.toLower = rest := by
  constructor
  · intro h
    obtain ⟨x, digits, rfl, rfl, rfl⟩ := List.map_eq_cons_iff.1 h
    exact ⟨x, digits, eq_or_eq_toUpper_toLower x, rfl, rfl⟩
  · rintro ⟨x, digits, rfl | rfl, rfl, rfl⟩
    · exact congrArg (· :: _) hc
    · exact congrArg (· :: _) hupper

end Text

namespace Numeral

theorem unsigned?_toLower (base : Nat) (t : Text) :
    unsigned? base t.toLower = unsigned? base t := by
  by_cases h : ∃ rest, t = '+' :: rest
  · obtain ⟨rest, rfl⟩ := h
    exact natural?_toLower base rest
  · have hlower : ∀ rest, t.toLower ≠ '+' :: rest := by
      intro rest heq
      obtain ⟨x, digits, rfl | rfl, rfl, -⟩ :=
        (Text.toLower_eq_cons_iff (by decide) (by decide)).1 heq
      · exact h ⟨digits, rfl⟩
      · exact h ⟨digits, rfl⟩
    rw [unsigned?, unsigned?, natural?_toLower]
    · exact fun rest heq => h ⟨rest, heq⟩
    · exact hlower

end Numeral

/-! ## Tokens -/

namespace Register

open Numeral (Denotes)

variable {t name : Text} {n : Nat}

/-- A register by its number behind an `x` or by one of its names, in any letter case. -/
inductive Token : Text → Nat → Prop
  | number {x : Char} {digits : Text} {n : Nat} (hx : x = 'x' ∨ x = 'X') (h : Denotes 10 digits n)
      (hn : n < 32) : Token (x :: digits) n
  | framePointer {t : Text} (h : t.toLower = ("fp" : Text)) : Token t 8
  | abiName {t : Text} {n : Nat} (h : abiNames[n]? = some t.toLower) : Token t n

/-- A register by its number with a plus sign in front of the digits. -/
def Signed (t : Text) (n : Nat) : Prop :=
  ∃ x digits, (x = 'x' ∨ x = 'X') ∧ t = x :: '+' :: digits ∧ Denotes 10 digits n ∧ n < 32

theorem number?_eq_some_iff :
    number? t = some n ↔ ∃ digits, t = 'x' :: digits ∧ Numeral.unsigned? 10 digits = some n := by
  constructor
  · intro h
    unfold number? at h
    split at h
    · exact ⟨_, rfl, h⟩
    · contradiction
  · rintro ⟨digits, rfl, h⟩
    exact h

theorem number?_toLower_eq_some_iff :
    number? t.toLower = some n ↔ ∃ x digits, (x = 'x' ∨ x = 'X') ∧ Denotes 10 digits n ∧
      (t = x :: digits ∨ t = x :: '+' :: digits) := by
  rw [number?_eq_some_iff]
  constructor
  · rintro ⟨lower, ht, hnumber⟩
    obtain ⟨x, rest, hx, rfl, rfl⟩ := (Text.toLower_eq_cons_iff (by decide) (by decide)).1 ht
    rw [Numeral.unsigned?_toLower, Numeral.unsigned?_eq_some_iff (by decide)] at hnumber
    obtain h | ⟨digits, rfl, h⟩ := hnumber
    · exact ⟨x, rest, hx, h, .inl rfl⟩
    · exact ⟨x, digits, hx, h, .inr rfl⟩
  · rintro ⟨x, digits, hx, h, ht⟩
    obtain ⟨rest, rfl, hrest⟩ : ∃ rest, t = x :: rest ∧ Numeral.unsigned? 10 rest = some n := by
      simp only [Numeral.unsigned?_eq_some_iff (show 10 ≤ 16 by decide)]
      rcases ht with ht | ht
      · exact ⟨digits, ht, .inl h⟩
      · exact ⟨'+' :: digits, ht, .inr ⟨digits, rfl, h⟩⟩
    refine ⟨Text.toLower rest, ?_, ?_⟩
    · exact (Text.toLower_eq_cons_iff (by decide) (by decide)).2 ⟨x, rest, hx, rfl, rfl⟩
    · rw [Numeral.unsigned?_toLower, hrest]

theorem ofAbiName?_eq_some_iff :
    ofAbiName? name = some n ↔ name = ("fp" : Text) ∧ n = 8 ∨ abiNames[n]? = some name := by
  have hother : ("fp" : Text) ∉ abiNames := by decide
  have hdistinct : abiNames.Nodup := by decide
  rw [ofAbiName?]
  split_ifs with hfp
  · constructor
    · rintro h
      exact .inl ⟨hfp, (Option.some.inj h).symm⟩
    · rintro (⟨-, rfl⟩ | h)
      · rfl
      · exact absurd (hfp ▸ List.mem_of_getElem? h) hother
  · rw [List.idxOf?_eq_some_iff, List.getElem?_eq_some_iff]
    constructor
    · rintro ⟨hlt, heq, -⟩
      exact .inr ⟨hlt, heq⟩
    · rintro (⟨hname, -⟩ | ⟨hlt, heq⟩)
      · exact absurd hname hfp
      · refine ⟨hlt, heq, fun j hj hjname => ?_⟩
        exact hj.ne (hdistinct.getElem_inj_iff.1 (hjname.trans heq.symm))

/-- No name starts with an `x`. -/
theorem number?_of_ofAbiName? (h : ofAbiName? name = some n) : number? name = none := by
  have hhead : ∀ name ∈ ("fp" : Text) :: abiNames, name.head? ≠ some 'x' := by decide
  have hmem : name ∈ ("fp" : Text) :: abiNames := by
    obtain ⟨rfl, -⟩ | hname := ofAbiName?_eq_some_iff.1 h
    · exact List.mem_cons_self
    · exact List.mem_cons_of_mem _ (List.mem_of_getElem? hname)
  rw [Option.eq_none_iff_forall_ne_some]
  intro m hm
  obtain ⟨digits, rfl, -⟩ := number?_eq_some_iff.1 hm
  exact hhead _ hmem rfl

/-- A number decides, if there is one, and no number is in the way of a name. -/
theorem ofToken?_eq_some_iff_number? :
    ofToken? t = some n ↔
      number? t.toLower = some n ∧ n < 32 ∨ ofAbiName? t.toLower = some n := by
  rw [ofToken?]
  constructor
  · intro h
    split at h
    · rename_i hnumber
      split_ifs at h with hlt
      obtain rfl := Option.some.inj h
      exact .inl ⟨hnumber, hlt⟩
    · exact .inr h
  · rintro (⟨h, hlt⟩ | h)
    · rw [h]
      exact if_pos hlt
    · rw [number?_of_ofAbiName? h]
      exact h

/-- The register that a token names to a reader whose numbers end at a limit, and who looks for a
name where there is no number up to it. -/
def ofTokenWithin? (limit : Nat) (token : Text) : Option Nat :=
  match (number? token.toLower).filter (· ≤ limit) with
  | some n => if n < 32 then some n else none
  | none => ofAbiName? token.toLower

/-- A limit makes no difference, since a number past it is no name. -/
theorem ofTokenWithin?_eq_ofToken? {limit : Nat} (hlimit : 31 ≤ limit) (token : Text) :
    ofTokenWithin? limit token = ofToken? token := by
  rw [ofTokenWithin?, ofToken?]
  cases hnumber : number? token.toLower with
  | none => rfl
  | some n =>
    by_cases hle : n ≤ limit
    · rw [Option.filter_some, if_pos (decide_eq_true hle)]
    · have hname : ofAbiName? token.toLower = none := by
        rw [Option.eq_none_iff_forall_ne_some]
        intro m hm
        rw [number?_of_ofAbiName? hm] at hnumber
        contradiction
      rw [Option.filter_some, if_neg (by simpa using hle)]
      dsimp only
      rw [hname, if_neg (by omega)]

theorem ofToken?_eq_some_iff : ofToken? t = some n ↔ Token t n ∨ Signed t n := by
  rw [ofToken?_eq_some_iff_number?, number?_toLower_eq_some_iff, ofAbiName?_eq_some_iff]
  constructor
  · rintro (⟨⟨x, digits, hx, h, rfl | rfl⟩, hn⟩ | ⟨hname, rfl⟩ | hname)
    · exact .inl (.number hx h hn)
    · exact .inr ⟨x, digits, hx, rfl, h, hn⟩
    · exact .inl (.framePointer hname)
    · exact .inl (.abiName hname)
  · rintro (h | ⟨x, digits, hx, rfl, h, hn⟩)
    · cases h with
      | number hx h hn => exact .inl ⟨⟨_, _, hx, h, .inl rfl⟩, hn⟩
      | framePointer hname => exact .inr (.inl ⟨hname, rfl⟩)
      | abiName hname => exact .inr (.inr hname)
    · exact .inl ⟨⟨x, digits, hx, h, .inr rfl⟩, hn⟩

/-- No digit is a plus sign, and no name starts with an `x`. -/
theorem Signed.not_token (h : Signed t n) (m : Nat) : ¬ Token t m := by
  obtain ⟨x, digits, hx, rfl, hdigits, -⟩ := h
  have hnumber := number?_toLower_eq_some_iff.2 ⟨x, digits, hx, hdigits, .inr rfl⟩
  have hname (k : Nat) : ofAbiName? (Text.toLower (x :: '+' :: digits)) ≠ some k := by
    intro hk
    rw [number?_of_ofAbiName? hk] at hnumber
    contradiction
  intro h
  cases h with
  | number hx h hn =>
    have hplus : Numeral.isDigit 10 '+' = true := h.isDigit_of_mem (by decide) List.mem_cons_self
    contradiction
  | framePointer h => exact hname 8 (ofAbiName?_eq_some_iff.2 (.inl ⟨h, rfl⟩))
  | abiName h => exact hname m (ofAbiName?_eq_some_iff.2 (.inr h))

theorem forall_ofToken?_iff_token :
    (∀ n, ofToken? t = some n ↔ Token t n) ↔ ¬ ∃ n, Signed t n := by
  simp only [ofToken?_eq_some_iff]
  constructor
  · rintro h ⟨n, hsigned⟩
    exact hsigned.not_token n ((h n).1 (.inr hsigned))
  · intro h n
    exact or_iff_left fun hsigned => h ⟨n, hsigned⟩

end Register

/-! ## What each operand is reported for -/

namespace Operands

variable {o : Operands} {index : Nat} {e : AssemblyError}

theorem mem_errors_read {α : Type} {substitute : α} {reading : Text → Noted α} :
    e ∈ (o.read index substitute reading).errors ↔
      o.tokens[index]? = none ∧ e = .missingOperand o.mnemonic (index + 1) ∨
        ∃ t, o.tokens[index]? = some t ∧ e ∈ (reading t).errors := by
  rw [read, token]
  cases o.tokens[index]? <;> simp

theorem mem_errors_ofOption {α : Type} {a? : Option α} {substitute : α} {e' : AssemblyError} :
    e ∈ (Noted.ofOption a? substitute e').errors ↔ a? = none ∧ e = e' := by
  cases a? <;> simp [Noted.ofOption]

theorem mem_errors_memory : e ∈ (o.memory index).errors ↔
    o.tokens[index]? = none ∧ e = .missingOperand o.mnemonic (index + 1) ∨
      ∃ t, o.tokens[index]? = some t ∧
        (Operand.memory? t = none ∧ e = .badMemoryOperand t ∨
          ∃ offset, Operand.offset? t = some offset ∧ o.immediate? offset = none ∧
            e = immediateError offset) := by
  simp only [memory, mem_errors_read]
  refine or_congr_right (exists_congr fun t => and_congr_right fun _ => ?_)
  rw [Operand.offset?]
  rcases Operand.memory? t with _ | ⟨_ | ⟨c, offset⟩, base⟩
  · simp
  · simp
  · simp [immediateOf, mem_errors_ofOption]

theorem immediateError_eq (t : Text) :
    immediateError t = .undefinedLabel t ∨ immediateError t = .badImmediate t := by
  rw [immediateError]
  split_ifs
  · exact .inl rfl
  · exact .inr rfl

end Operands

/-- The report about a token that has no value under a reading, where such a token is reported in
one way only. -/
def Reading.refusal? : Reading → Option (Text → AssemblyError)
  | .register => some .badRegister
  | .csr => some .badCsr
  | .base => some .badMemoryOperand
  | .immediate | .offset => none

namespace Operands

variable {o : Operands} {index count : Nat} {t : Text} {reading : Reading}
  {refusal : Text → AssemblyError}

theorem refusal_ne_immediateError (h : reading.refusal? = some refusal) (t t' : Text) :
    refusal t ≠ immediateError t' := by
  cases reading <;> cases h <;> obtain ht | ht := immediateError_eq t' <;> rw [ht] <;> simp

theorem refusal_notMem_errors_immediate (h : reading.refusal? = some refusal) :
    refusal t ∉ (o.immediate index).errors := by
  have hne := refusal_ne_immediateError h t
  cases reading <;> cases h <;>
    simp [immediate, immediateOf, mem_errors_read, mem_errors_ofOption, hne]

theorem refusal_notMem_errors_expectCount (h : reading.refusal? = some refusal) :
    refusal t ∉ (o.expectCount count).errors := by
  rw [expectCount]
  cases o.tokens[count]? <;> cases reading <;> cases h <;> simp [Noted.note]

theorem refusal_notMem_errors_expectRange (h : reading.refusal? = some refusal)
    (value min max : Int) : refusal t ∉ (expectRange value min max).errors := by
  rw [expectRange]
  split_ifs <;> cases reading <;> cases h <;> simp [Noted.note]

theorem refusal_notMem_errors_expectEven (h : reading.refusal? = some refusal) (value : Int) :
    refusal t ∉ (expectEven value).errors := by
  rw [expectEven]
  split_ifs <;> cases reading <;> cases h <;> simp [Noted.note]

/-- The token at an index has no value under a reading. -/
def Refuses (o : Operands) (reading : Reading) (index : Nat) (t : Text) : Prop :=
  o.tokens[index]? = some t ∧ reading.value? o.labels o.address t = none

theorem refusal_mem_errors_register (h : reading.refusal? = some refusal) :
    refusal t ∈ (o.register index).errors ↔ .register = reading ∧ o.Refuses reading index t := by
  rw [register, mem_errors_read, Refuses]
  cases reading <;> cases h <;> cases hvalue : Register.ofToken? t <;>
    simp [mem_errors_ofOption, Reading.value?, hvalue]

theorem refusal_mem_errors_csr (h : reading.refusal? = some refusal) :
    refusal t ∈ (o.csr index).errors ↔ .csr = reading ∧ o.Refuses reading index t := by
  rw [csr, mem_errors_read, Refuses]
  cases reading <;> cases h <;> cases hvalue : Csr.ofToken? t <;>
    simp [mem_errors_ofOption, Reading.value?, hvalue]

theorem refusal_mem_errors_memory (h : reading.refusal? = some refusal) :
    refusal t ∈ (o.memory index).errors ↔ .base = reading ∧ o.Refuses reading index t := by
  have hne := refusal_ne_immediateError h t
  rw [mem_errors_memory, Refuses]
  cases reading <;> cases h <;> cases hvalue : Operand.memory? t <;>
    simp [Reading.value?, hvalue, hne]

/-- A token is refused exactly if it stands where it cannot be read. The checks of values and of the
number of operands, and immediates, refuse none. -/
theorem refusal_mem_errors_encode_iff (h : reading.refusal? = some refusal) :
    refusal t ∈ o.encode.errors ↔ ∃ x ∈ (o.mnemonic.operands o.tokens.length).zipIdx,
      ∃ part ∈ x.1, part.reading = reading ∧ o.Refuses reading x.2 t := by
  have hrow : o.mnemonic.description.format = o.mnemonic.format := rfl
  have himmediate : .immediate ≠ reading := by rintro rfl; contradiction
  have hoffset : .offset ≠ reading := by rintro rfl; contradiction
  -- A `jalr` with two operands reads them in the way a load does.
  by_cases hjalr : o.mnemonic = .jalr ∧ o.tokens.length = 2
  · have hformat : o.mnemonic.format = .i := by rw [hjalr.1]; rfl
    simp only [encode, hrow, hformat, jumpBase, Mnemonic.operands, if_pos hjalr]
    simp [Format.operands, refusal_mem_errors_register h, refusal_mem_errors_memory h,
      refusal_notMem_errors_expectRange h, hoffset]
  · simp only [encode, hrow, jumpBase, Mnemonic.operands, if_neg hjalr]
    cases o.mnemonic.format <;>
      simp [Format.operands, refusal_mem_errors_register h, refusal_mem_errors_csr h,
        refusal_mem_errors_memory h, refusal_notMem_errors_immediate h,
        refusal_notMem_errors_expectCount h, refusal_notMem_errors_expectRange h,
        refusal_notMem_errors_expectEven h, himmediate, hoffset]

end Operands

/-! ## Instructions -/

/-- A token stands where an instruction has an operand, or a part of one, that is read so. -/
def Mnemonic.Places (op : Mnemonic) (tokens : List Text) (reading : Reading) (t : Text) : Prop :=
  ∃ index, tokens[index]? = some t ∧ ∃ part ∈ op.partsAt tokens.length index, part.reading = reading

theorem Mnemonic.mem_partsAt_iff {op : Mnemonic} {count index : Nat} {part : Part} :
    part ∈ op.partsAt count index ↔
      ∃ parts, (op.operands count)[op.canonicalIndex count index]? = some parts ∧ part ∈ parts := by
  rw [partsAt, List.getD_eq_getElem?_getD]
  cases (op.operands count)[op.canonicalIndex count index]? <;> simp

section

variable {t : Text} {reading : Reading} {refusal : Text → AssemblyError}

theorem refusal_mem_errors_encode_iff (h : reading.refusal? = some refusal) (op : Mnemonic)
    (tokens : List Text) (labels : LabelTable) (address : Word) :
    refusal t ∈ (encode op tokens labels address).errors ↔
      op.Places tokens reading t ∧ reading.value? labels address t = none := by
  rw [encode, Operands.refusal_mem_errors_encode_iff h]
  simp only [Operands.Refuses, length_canonicalOperands, Mnemonic.operands_canonical,
    getElem?_canonicalOperands]
  constructor
  · rintro ⟨⟨parts, index⟩, hparts, part, hpart, hreading, htoken, hvalue⟩
    refine ⟨⟨_, htoken, part, Mnemonic.mem_partsAt_iff.2 ⟨parts, ?_, hpart⟩, hreading⟩, hvalue⟩
    rw [Mnemonic.canonicalIndex_canonicalIndex]
    exact List.mem_zipIdx_iff_getElem?.1 hparts
  · rintro ⟨⟨index, htoken, part, hpart, hreading⟩, hvalue⟩
    obtain ⟨parts, hparts, hpart⟩ := Mnemonic.mem_partsAt_iff.1 hpart
    refine ⟨⟨parts, op.canonicalIndex tokens.length index⟩, List.mem_zipIdx_iff_getElem?.2 hparts,
      part, hpart, hreading, ?_, hvalue⟩
    rw [Mnemonic.canonicalIndex_canonicalIndex]
    exact htoken

end

namespace Register

/-- A memory operand is one by its base alone. -/
theorem memory?_eq_none_iff {t : Text} : Operand.memory? t = none ↔
    ¬ ∃ offset base, '(' ∉ offset ∧ t = offset ++ '(' :: base ++ [')'] ∧
      (ofToken? (Text.trim base)).isSome = true := by
  rw [← not_iff_not, not_not, ← ne_eq, Option.ne_none_iff_exists']
  simp only [Prod.exists, Operand.memory?_eq_some_iff, Option.isSome_iff_exists]
  constructor
  · rintro ⟨-, n, offset, base, hmem, ht, hn, -⟩
    exact ⟨offset, base, hmem, ht, n, hn⟩
  · rintro ⟨offset, base, hmem, ht, n, hn⟩
    exact ⟨_, n, offset, base, hmem, ht, hn, rfl⟩

/-- Which tokens name a register, and what is reported of the others wherever a register is to
stand. -/
theorem register_grammar (t : Text) :
    (∀ n, ofToken? t = some n ↔ Token t n ∨ Signed t n) ∧
      ((∀ n, ofToken? t = some n ↔ Token t n) ↔ ¬ ∃ n, Signed t n) ∧
      ∀ op tokens labels address,
        (.badRegister t ∈ (encode op tokens labels address).errors ↔
          op.Places tokens .register t ∧ ofToken? t = none) ∧
        (.badMemoryOperand t ∈ (encode op tokens labels address).errors ↔
          op.Places tokens .base t ∧ ¬ ∃ offset base, '(' ∉ offset ∧
            t = offset ++ '(' :: base ++ [')'] ∧ (ofToken? (Text.trim base)).isSome = true) := by
  refine ⟨fun n => ofToken?_eq_some_iff, forall_ofToken?_iff_token,
    fun op tokens labels address => ⟨?_, ?_⟩⟩
  · have hrefusal : Reading.register.refusal? = some .badRegister := rfl
    rw [refusal_mem_errors_encode_iff hrefusal]
    refine and_congr_right fun _ => ?_
    cases hvalue : ofToken? t <;> simp [Reading.value?, hvalue]
  · have hrefusal : Reading.base.refusal? = some .badMemoryOperand := rfl
    rw [refusal_mem_errors_encode_iff hrefusal, ← memory?_eq_none_iff]
    refine and_congr_right fun _ => ?_
    cases hvalue : Operand.memory? t <;> simp [Reading.value?, hvalue]

example : ofToken? "x+5" = some 5 := by decide

end Register

end RefHart
