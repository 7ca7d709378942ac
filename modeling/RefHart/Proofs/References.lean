import Mathlib
import RefHart.Proofs.LineByLine
import RefHart.Proofs.Literals

/-!
# The token that is looked up

Encoding looks up at most one operand token among the labels, whatever is wrong with the operands
otherwise (`Mnemonic.reference?`); for operands in order this is the token of the immediate. Address
and labels enter the word and the notes of an instruction only through the value of this token.

**Theorem (`Operands.encode_congr`).** Two places where the token has the same value, or is no
immediate in either, are encoded alike: the same word with the same notes.
-/

namespace RefHart

/-- The operand token that an instruction looks up among the labels, errors or not. -/
def Mnemonic.reference? (op : Mnemonic) (tokens : List Text) : Option Text :=
  match op.format with
  | .i => if op = .jalr ∧ tokens.length = 2 then tokens[1]?.bind Operand.offset? else tokens[2]?
  | .iShift | .b | .csrImm => tokens[2]?
  | .load | .s => tokens[1]?.bind Operand.offset?
  | .u | .j => tokens[1]?
  | .r | .csr | .system => none

/-- The distance from an address to a label. -/
def distance? (labels : LabelTable) (address : Word) (name : Text) : Option Int :=
  labels[name]?.map fun target => (target.toNat : Int) - address.toNat

/-- The token that a slot looks up. -/
def Slot.reference? (slot : Slot) : Option Text :=
  slot.mnemonic?.bind (·.reference? slot.operands)

/-- The tokens that a source looks up among its labels. -/
def Source.references (s : Source) : List Text := s.slots.toList.filterMap Slot.reference?

theorem Mnemonic.reference?_canonical (op : Mnemonic) (tokens : List Text) :
    op.canonical.reference? (canonicalOperands op tokens) = op.reference? tokens := by
  rw [canonicalOperands]
  split_ifs with hpseudo
  · obtain ⟨hformat, hcanonical⟩ := Mnemonic.format_of_isPseudo hpseudo
    rw [reference?, reference?, hformat, hcanonical]
    rcases tokens with _ | ⟨a, _ | ⟨b, rest⟩⟩ <;> rfl
  · have hop : op.canonical = op := by
      cases op <;> first | rfl | exact absurd rfl hpseudo
    rw [hop]

namespace Operands

variable {op : Mnemonic} {tokens : List Text} {labels labels' : LabelTable}
  {address address' : Word}

/-- The distance to a label comes before the reading as a literal. -/
theorem immediate?_eq_or (o : Operands) (t : Text) :
    o.immediate? t = (distance? o.labels o.address t).or (Operand.literal? t) := by
  unfold immediate? distance?
  cases o.labels[t]? <;> rfl

theorem immediateOf_congr {t : Text}
    (h : immediate? ⟨op, tokens, labels, address⟩ t =
      immediate? ⟨op, tokens, labels', address'⟩ t) :
    immediateOf ⟨op, tokens, labels, address⟩ t =
      immediateOf ⟨op, tokens, labels', address'⟩ t := by
  rw [immediateOf, immediateOf, h]

theorem immediate_congr {index : Nat}
    (h : ∀ t, tokens[index]? = some t →
      immediate? ⟨op, tokens, labels, address⟩ t = immediate? ⟨op, tokens, labels', address'⟩ t) :
    immediate ⟨op, tokens, labels, address⟩ index =
      immediate ⟨op, tokens, labels', address'⟩ index := by
  unfold immediate read token
  dsimp only
  cases htoken : tokens[index]? with
  | none => rfl
  | some t => exact immediateOf_congr (h t htoken)

theorem memory_congr {index : Nat}
    (h : ∀ t, tokens[index]?.bind Operand.offset? = some t →
      immediate? ⟨op, tokens, labels, address⟩ t = immediate? ⟨op, tokens, labels', address'⟩ t) :
    memory ⟨op, tokens, labels, address⟩ index = memory ⟨op, tokens, labels', address'⟩ index := by
  unfold memory read token
  dsimp only
  cases htoken : tokens[index]? with
  | none => rfl
  | some token =>
    rw [htoken, Option.bind_some] at h
    rw [Noted.pure_bind, Noted.pure_bind]
    cases hm : Operand.memory? token with
    | none => simp only [hm]
    | some parsed =>
      obtain ⟨_ | ⟨c, offset⟩, base⟩ := parsed
      · simp only [hm]
      · have hoffset : Operand.offset? token = some (c :: offset) := by
          rw [Operand.offset?, hm]
          rfl
        simp only [hm, immediateOf_congr (h _ hoffset)]

theorem jumpBase_congr
    (h : ∀ t, (if op = .jalr ∧ tokens.length = 2 then tokens[1]?.bind Operand.offset?
        else tokens[2]?) = some t →
      immediate? ⟨op, tokens, labels, address⟩ t = immediate? ⟨op, tokens, labels', address'⟩ t) :
    jumpBase ⟨op, tokens, labels, address⟩ = jumpBase ⟨op, tokens, labels', address'⟩ := by
  unfold jumpBase
  dsimp only
  split_ifs at h ⊢
  · rw [memory_congr h]
  · rw [immediate_congr h]
    rfl

/-- Address and labels enter an encoding through the token that is looked up. -/
theorem encode_congr
    (h : ∀ t, op.reference? tokens = some t →
      immediate? ⟨op, tokens, labels, address⟩ t = immediate? ⟨op, tokens, labels', address'⟩ t) :
    encode ⟨op, tokens, labels, address⟩ = encode ⟨op, tokens, labels', address'⟩ := by
  rw [Mnemonic.reference?, Mnemonic.format] at h
  cases hformat : op.description.format with
    (rw [hformat] at h; simp only [encode, hformat])
  | r | csr | system => rfl
  | i =>
    rw [jumpBase_congr h]
    rfl
  | iShift | b | u | j | csrImm =>
    rw [immediate_congr h]
    rfl
  | load | s =>
    rw [memory_congr h]
    rfl

end Operands

/-- Two label tables that put the looked-up token at the same distance give the same encoding. -/
theorem encode_congr {op : Mnemonic} {tokens : List Text} {labels labels' : LabelTable}
    {address address' : Word}
    (h : ∀ t, op.reference? tokens = some t →
      distance? labels address t = distance? labels' address' t) :
    encode op tokens labels address = encode op tokens labels' address' := by
  apply Operands.encode_congr
  intro t ht
  rw [Mnemonic.reference?_canonical] at ht
  rw [Operands.immediate?_eq_or, Operands.immediate?_eq_or]
  exact congrArg (Option.or · _) (h t ht)

/-- A slot at another place is encoded alike if its looked-up token has the same distance there. -/
theorem Slot.encode_congr {slot : Slot} {labels labels' : LabelTable} {line : Nat} {address : Word}
    (h : ∀ t, slot.reference? = some t →
      distance? labels' address t = distance? labels slot.address t) :
    { slot with line, address }.encode labels' = slot.encode labels := by
  unfold encode
  dsimp only
  cases hop : slot.mnemonic? with
  | none => rfl
  | some op =>
    refine RefHart.encode_congr fun t ht => h t ?_
    rw [reference?, hop]
    exact ht

end RefHart
