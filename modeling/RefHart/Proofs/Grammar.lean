import Mathlib
import RefHart.Proofs.Operands
import RefHart.Proofs.Text

/-!
# The operand grammar

Every format asks for a fixed row of operands, each of one kind (`Format.operandKinds`); only `jalr`
leaves the choice between two rows (`Mnemonic.operandForms`). Which tokens are of a kind is said
without the reader of the operands: a token that names a register or a CSR, a number within bounds,
an offset before a base register in parentheses (`OperandKind.Accepts`).

**Theorem (`errors_encode_eq_nil_iff`).** An instruction is encoded without a note exactly if its
operands are a row of this grammar, no operand missing, surplus, unreadable, out of range or odd.

One direction reads the tokens off the values that encoding gets from them
(`wellFormed_of_values?`), the other finds values that fit for the tokens of a row
(`exists_values?_of_wellFormed`).
-/

namespace RefHart

/-! ## Kinds of operands -/

/-- What an operand may be. -/
inductive OperandKind where
  | register
  | csr
  /-- A number between two bounds. -/
  | immediate (min max : Int)
  /-- An even number between two bounds. -/
  | evenImmediate (min max : Int)
  /-- An offset and a base register. -/
  | memory
  deriving DecidableEq, Repr

/-- The operands that a format asks for. -/
def Format.operandKinds : Format → List OperandKind
  | .r => [.register, .register, .register]
  | .i => [.register, .register, .immediate (-2048) 4095]
  | .iShift => [.register, .register, .immediate 0 31]
  | .load | .s => [.register, .memory]
  | .b => [.register, .register, .evenImmediate (-4096) 4094]
  | .u => [.register, .immediate (-0x80000) 0xFFFFF]
  | .j => [.register, .evenImmediate (-1048576) 1048574]
  | .csr => [.register, .csr, .register]
  | .csrImm => [.register, .csr, .immediate 0 31]
  | .system => []

/-- The rows of operands that an instruction takes. -/
def Mnemonic.operandForms (op : Mnemonic) : List (List OperandKind) :=
  op.format.operandKinds :: if op = .jalr then [[.register, .memory]] else []

/-- The number that a token stands for at an address: the distance to the label that it names, and
else its value as a literal. -/
inductive StandsFor (labels : LabelTable) (address : Word) (t : Text) : Int → Prop
  | label {target : Word} (h : labels[t]? = some target) :
      StandsFor labels address t (target.toNat - address.toNat)
  | literal {v : Int} (hnone : labels[t]? = none) (h : Operand.literal? t = some v) :
      StandsFor labels address t v

/-- Whether a token is an operand of a kind. -/
def OperandKind.Accepts (labels : LabelTable) (address : Word) : OperandKind → Text → Prop
  | register, t => ∃ r, Register.ofToken? t = some r
  | csr, t => ∃ a, Csr.ofToken? t = some a
  | immediate min max, t => ∃ v, StandsFor labels address t v ∧ min ≤ v ∧ v ≤ max
  | evenImmediate min max, t => ∃ v, StandsFor labels address t v ∧ min ≤ v ∧ v ≤ max ∧ v % 2 = 0
  | memory, t => ∃ offset base, '(' ∉ offset ∧ t = offset ++ '(' :: base ++ [')'] ∧
      (∃ r, Register.ofToken? (Text.trim base) = some r) ∧
      (Text.trim offset = [] ∨
        ∃ v, StandsFor labels address (Text.trim offset) v ∧ -2048 ≤ v ∧ v ≤ 4095)

/-! ## Single operands -/

namespace Operands

theorem immediate?_eq_some_iff {o : Operands} {t : Text} {v : Int} :
    o.immediate? t = some v ↔ StandsFor o.labels o.address t v := by
  unfold immediate?
  constructor
  · intro h
    split at h
    · obtain rfl := Option.some.inj h
      exact .label ‹_›
    · exact .literal ‹_› h
  · rintro (hlabel | ⟨hnone, hliteral⟩)
    · rw [hlabel]
    · rw [hnone, hliteral]

end Operands

/-- A memory operand is cut at its first opening parenthesis, and its last character closes it. -/
theorem Operand.memory?_eq_some_iff {t offset : Text} {r : Nat} :
    memory? t = some (offset, r) ↔
      ∃ before base, '(' ∉ before ∧ t = before ++ '(' :: base ++ [')'] ∧
        Register.ofToken? (Text.trim base) = some r ∧ Text.trim before = offset := by
  unfold memory?
  constructor
  · intro h
    split_ifs at h with hlast
    split at h
    · rename_i before base hcut
      obtain ⟨hmem, hinit⟩ := Text.cutAt?_eq_some_iff.1 hcut
      obtain ⟨r', hr', heq⟩ := Option.map_eq_some_iff.1 h
      obtain ⟨rfl, rfl⟩ := Prod.mk.inj heq
      refine ⟨before, base, hmem, ?_, hr', rfl⟩
      rw [← hinit, List.dropLast_append_getLast? _ hlast]
    · contradiction
  · rintro ⟨before, base, hmem, rfl, hr, rfl⟩
    have hcut : Text.cutAt? '(' (before ++ '(' :: base ++ [')']).dropLast = some (before, base) := by
      rw [List.dropLast_concat, Text.cutAt?_append_cons hmem]
    rw [if_pos List.getLast?_concat, hcut]
    dsimp only
    rw [hr, Option.map_some]

/-- A token is a memory operand exactly if it has an offset in range and a base. -/
theorem Operands.accepts_memory_iff {o : Operands} {t : Text} :
    OperandKind.memory.Accepts o.labels o.address t ↔
      ∃ value, o.memoryValue? t = some value ∧ -2048 ≤ value.1 ∧ value.1 ≤ 4095 := by
  constructor
  · rintro ⟨before, base, hmem, ht, ⟨r, hr⟩, hoffset⟩
    have hmemory := Operand.memory?_eq_some_iff.2 ⟨before, base, hmem, ht, hr, rfl⟩
    unfold memoryValue?
    rw [hmemory]
    cases htrim : Text.trim before with
    | nil => exact ⟨(0, r), rfl, by norm_num, by norm_num⟩
    | cons c cs =>
      rw [htrim] at hoffset
      obtain hnil | ⟨v, hv, hmin, hmax⟩ := hoffset
      · contradiction
      · exact ⟨(v, r), by simp [immediate?_eq_some_iff.2 hv], hmin, hmax⟩
  · rintro ⟨⟨v, r⟩, hvalue, hmin, hmax⟩
    unfold memoryValue? at hvalue
    cases hmemory : Operand.memory? t with
    | none => rw [hmemory] at hvalue; contradiction
    | some parsed =>
      obtain ⟨offset, r'⟩ := parsed
      obtain ⟨before, base, hmem, ht, hr, htrim⟩ := Operand.memory?_eq_some_iff.1 hmemory
      refine ⟨before, base, hmem, ht, ⟨r', hr⟩, ?_⟩
      rw [htrim]
      rw [hmemory] at hvalue
      cases offset with
      | nil => exact .inl rfl
      | cons c cs =>
        obtain ⟨v', hv', heq⟩ := Option.map_eq_some_iff.1 hvalue
        obtain ⟨rfl, -⟩ := Prod.mk.inj heq
        exact .inr ⟨v', immediate?_eq_some_iff.1 hv', hmin, hmax⟩

/-! ## Rows of operands -/

namespace Operands

variable {o : Operands}

/-- The tokens are a row of operands that the instruction takes. -/
def WellFormed (o : Operands) : Prop :=
  ∃ form ∈ o.mnemonic.operandForms,
    List.Forall₂ (OperandKind.Accepts o.labels o.address) form o.tokens

theorem wellFormed_of_form {form : List OperandKind} {tokens : List Text}
    (hform : form ∈ o.mnemonic.operandForms) (ht : o.tokens = tokens)
    (h : List.Forall₂ (OperandKind.Accepts o.labels o.address) form tokens) : o.WellFormed :=
  ⟨form, hform, ht ▸ h⟩

theorem mem_operandForms_of_format {f : Format} (hf : o.mnemonic.format = f) :
    f.operandKinds ∈ o.mnemonic.operandForms := by
  rw [Mnemonic.operandForms, hf]
  exact List.mem_cons_self

theorem wellFormed_of_values? {v : OperandValues} (h : o.values? = some v) (hfits : v.Fits) :
    o.WellFormed := by
  cases values?_eq_some_iff.1 h with
  | registers hf ht hd h1 h2 =>
    exact wellFormed_of_form (mem_operandForms_of_format hf) ht
      (.cons ⟨_, hd⟩ (.cons ⟨_, h1⟩ (.cons ⟨_, h2⟩ .nil)))
  | immediate hf ht ha hb hv | shift hf ht ha hb hv | branch hf ht ha hb hv =>
    exact wellFormed_of_form (mem_operandForms_of_format hf) ht
      (.cons ⟨_, ha⟩ (.cons ⟨_, hb⟩ (.cons ⟨_, immediate?_eq_some_iff.1 hv, hfits⟩ .nil)))
  | jumpBase hjalr ht hd hm =>
    have hform : [.register, .memory] ∈ o.mnemonic.operandForms := by
      simp [Mnemonic.operandForms, hjalr]
    exact wellFormed_of_form hform ht
      (.cons ⟨_, hd⟩ (.cons (accepts_memory_iff.2 ⟨_, hm, hfits⟩) .nil))
  | load hf ht ha hm | store hf ht ha hm =>
    exact wellFormed_of_form (mem_operandForms_of_format hf) ht
      (.cons ⟨_, ha⟩ (.cons (accepts_memory_iff.2 ⟨_, hm, hfits⟩) .nil))
  | upper hf ht hd hv | jump hf ht hd hv =>
    exact wellFormed_of_form (mem_operandForms_of_format hf) ht
      (.cons ⟨_, hd⟩ (.cons ⟨_, immediate?_eq_some_iff.1 hv, hfits⟩ .nil))
  | csr hf ht hd hc h1 =>
    exact wellFormed_of_form (mem_operandForms_of_format hf) ht
      (.cons ⟨_, hd⟩ (.cons ⟨_, hc⟩ (.cons ⟨_, h1⟩ .nil)))
  | csrImmediate hf ht hd hc hv =>
    exact wellFormed_of_form (mem_operandForms_of_format hf) ht
      (.cons ⟨_, hd⟩ (.cons ⟨_, hc⟩ (.cons ⟨_, immediate?_eq_some_iff.1 hv, hfits⟩ .nil)))
  | none hf ht => exact wellFormed_of_form (mem_operandForms_of_format hf) ht .nil

theorem exists_values?_of_wellFormed (h : o.WellFormed) : ∃ v, o.values? = some v ∧ v.Fits := by
  obtain ⟨form, hform, h⟩ := h
  rw [Mnemonic.operandForms, List.mem_cons, List.mem_ite_nil_right, List.mem_singleton] at hform
  generalize ht : o.tokens = tokens at h
  obtain rfl | ⟨hjalr, rfl⟩ := hform
  · cases hf : o.mnemonic.format with (rw [hf, Format.operandKinds] at h)
    | r =>
      obtain _ | ⟨⟨rd, hd⟩, _ | ⟨⟨rs1, h1⟩, _ | ⟨⟨rs2, h2⟩, ⟨⟩⟩⟩⟩ := h
      exact ⟨.registers rd rs1 rs2, (Denotes.registers hf ht hd h1 h2).values?_eq, trivial⟩
    | i =>
      obtain _ | ⟨⟨rd, hd⟩, _ | ⟨⟨rs1, h1⟩, _ | ⟨⟨v, hv, hfits⟩, ⟨⟩⟩⟩⟩ := h
      have hv := immediate?_eq_some_iff.2 hv
      exact ⟨.immediate rd rs1 v, (Denotes.immediate hf ht hd h1 hv).values?_eq, hfits⟩
    | iShift =>
      obtain _ | ⟨⟨rd, hd⟩, _ | ⟨⟨rs1, h1⟩, _ | ⟨⟨v, hv, hfits⟩, ⟨⟩⟩⟩⟩ := h
      have hv := immediate?_eq_some_iff.2 hv
      exact ⟨.shift rd rs1 v, (Denotes.shift hf ht hd h1 hv).values?_eq, hfits⟩
    | load =>
      obtain _ | ⟨⟨rd, hd⟩, _ | ⟨hm, ⟨⟩⟩⟩ := h
      obtain ⟨⟨v, base⟩, hm, hfits⟩ := accepts_memory_iff.1 hm
      exact ⟨.load rd v base, (Denotes.load hf ht hd hm).values?_eq, hfits⟩
    | s =>
      obtain _ | ⟨⟨rs2, h2⟩, _ | ⟨hm, ⟨⟩⟩⟩ := h
      obtain ⟨⟨v, base⟩, hm, hfits⟩ := accepts_memory_iff.1 hm
      exact ⟨.store rs2 v base, (Denotes.store hf ht h2 hm).values?_eq, hfits⟩
    | b =>
      obtain _ | ⟨⟨rs1, h1⟩, _ | ⟨⟨rs2, h2⟩, _ | ⟨⟨v, hv, hfits⟩, ⟨⟩⟩⟩⟩ := h
      have hv := immediate?_eq_some_iff.2 hv
      exact ⟨.branch rs1 rs2 v, (Denotes.branch hf ht h1 h2 hv).values?_eq, hfits⟩
    | u =>
      obtain _ | ⟨⟨rd, hd⟩, _ | ⟨⟨v, hv, hfits⟩, ⟨⟩⟩⟩ := h
      have hv := immediate?_eq_some_iff.2 hv
      exact ⟨.upper rd v, (Denotes.upper hf ht hd hv).values?_eq, hfits⟩
    | j =>
      obtain _ | ⟨⟨rd, hd⟩, _ | ⟨⟨v, hv, hfits⟩, ⟨⟩⟩⟩ := h
      have hv := immediate?_eq_some_iff.2 hv
      exact ⟨.jump rd v, (Denotes.jump hf ht hd hv).values?_eq, hfits⟩
    | csr =>
      obtain _ | ⟨⟨rd, hd⟩, _ | ⟨⟨a, hc⟩, _ | ⟨⟨rs1, h1⟩, ⟨⟩⟩⟩⟩ := h
      exact ⟨.csr rd a rs1, (Denotes.csr hf ht hd hc h1).values?_eq, trivial⟩
    | csrImm =>
      obtain _ | ⟨⟨rd, hd⟩, _ | ⟨⟨a, hc⟩, _ | ⟨⟨v, hv, hfits⟩, ⟨⟩⟩⟩⟩ := h
      have hv := immediate?_eq_some_iff.2 hv
      exact ⟨.csrImmediate rd a v, (Denotes.csrImmediate hf ht hd hc hv).values?_eq, hfits⟩
    | system =>
      obtain _ | _ := h
      exact ⟨.none, (Denotes.none hf ht).values?_eq, trivial⟩
  · obtain _ | ⟨⟨rd, hd⟩, _ | ⟨hm, ⟨⟩⟩⟩ := h
    obtain ⟨⟨v, base⟩, hm, hfits⟩ := accepts_memory_iff.1 hm
    exact ⟨.immediate rd base v, (Denotes.jumpBase hjalr ht hd hm).values?_eq, hfits⟩

theorem errors_encode_eq_nil_iff_wellFormed : o.encode.errors = [] ↔ o.WellFormed := by
  constructor
  · intro h
    obtain ⟨hv, hfits⟩ := values?_of_errors_encode h
    exact wellFormed_of_values? hv hfits
  · intro h
    obtain ⟨v, hv, hfits⟩ := exists_values?_of_wellFormed h
    rw [encode_of_values? hv hfits, Noted.errors_pure]

end Operands

/-! ## Instructions -/

theorem Mnemonic.operandForms_canonical (op : Mnemonic) :
    op.canonical.operandForms = op.operandForms := by
  cases op <;> rfl

/-- Encoding has no errors exactly if the operands are a row that the instruction takes. -/
theorem errors_encode_eq_nil_iff (op : Mnemonic) (tokens : List Text) (labels : LabelTable)
    (address : Word) :
    (encode op tokens labels address).errors = [] ↔
      ∃ form ∈ op.operandForms,
        List.Forall₂ (OperandKind.Accepts labels address) form (canonicalOperands op tokens) := by
  rw [encode, Operands.errors_encode_eq_nil_iff_wellFormed, Operands.WellFormed,
    Mnemonic.operandForms_canonical]

/-- A second memory operand makes a `jalr` one of three operands. -/
example : (encode .jalr ["x1", "4(x2)", "8(x3)"] ∅ 0).errors =
    [.badRegister "4(x2)", .badImmediate "8(x3)"] := by decide +kernel

end RefHart
