import Mathlib
import RefHart.Assembly.Encoding

/-!
# The values of operands

Encoding reads its operand tokens one by one and notes what is wrong with them. Here the same tokens
are read at once: `Operands.values?` lists, format by format, which rows of tokens an instruction
takes and which values they denote, and `OperandValues.Fits` says which of these values have a place
in the word. `Operands.Denotes` is the same list as a relation (`values?_eq_some_iff`), one named case
for each row, and what is proved of the values is proved by these cases.

**Encoding.** Whatever the tokens are, the word is packed from the values that encoding reads from them
(`value_encode`). If it notes nothing, then these are the values that the tokens denote, and they fit
(`values?_of_errors_encode`). The other way round, tokens that denote values that fit are encoded
without a note (`encode_of_values?`).
-/

namespace RefHart

/-! ## Notes -/

namespace Noted

variable {α β : Type}

@[simp] theorem value_pure (a : α) : (pure a : Noted α).value = a := rfl

@[simp] theorem errors_pure (a : α) : (pure a : Noted α).errors = [] := rfl

@[simp] theorem value_bind (x : Noted α) (f : α → Noted β) :
    (x >>= f).value = (f x.value).value := rfl

@[simp] theorem errors_bind (x : Noted α) (f : α → Noted β) :
    (x >>= f).errors = x.errors ++ (f x.value).errors := rfl

theorem pure_bind (a : α) (f : α → Noted β) : (pure a >>= f) = f a := rfl

theorem eq_some_of_errors_ofOption {a? : Option α} {substitute : α} {e : AssemblyError}
    (h : (ofOption a? substitute e).errors = []) : a? = some (ofOption a? substitute e).value := by
  cases a? with
  | none => simp [ofOption] at h
  | some a => rfl

end Noted

/-! ## Registers and CSRs -/

theorem Register.lt_of_ofToken? {t : Text} {r : Nat} (h : ofToken? t = some r) : r < 32 := by
  simp only [ofToken?] at h
  split at h
  · split at h
    · obtain rfl := Option.some.inj h
      assumption
    · contradiction
  · unfold ofAbiName? at h
    split at h
    · obtain rfl := Option.some.inj h
      decide
    · obtain ⟨hlt, -⟩ := List.idxOf?_eq_some_iff.1 h
      exact hlt

theorem Csr.lt_of_ofName? {t : Text} {address : Nat} (h : ofName? t = some address) :
    address < 4096 := by
  obtain ⟨entry, hmem, rfl⟩ := Option.map_eq_some_iff.1 h
  have hall : ∀ entry ∈ named, entry.2 < 4096 := by decide
  exact hall entry (List.mem_of_find?_eq_some hmem)

theorem Csr.lt_of_ofToken? {t : Text} {address : Nat} (h : ofToken? t = some address) :
    address < 4096 := by
  unfold ofToken? at h
  split at h
  · rename_i hn
    obtain rfl := Option.some.inj h
    exact lt_of_ofName? hn
  · obtain ⟨-, hle⟩ := Option.filter_eq_some_iff.1 h
    exact Nat.lt_succ_of_le (of_decide_eq_true hle)

/-! ## Values -/

/-- The values of the operands of an instruction. -/
inductive OperandValues where
  | registers (rd rs1 rs2 : Nat)
  | immediate (rd rs1 : Nat) (v : Int)
  | shift (rd rs1 : Nat) (amount : Int)
  | load (rd : Nat) (offset : Int) (base : Nat)
  | store (rs2 : Nat) (offset : Int) (base : Nat)
  | branch (rs1 rs2 : Nat) (offset : Int)
  | upper (rd : Nat) (v : Int)
  | jump (rd : Nat) (offset : Int)
  | csr (rd address rs1 : Nat)
  | csrImmediate (rd address : Nat) (v : Int)
  | none
  deriving DecidableEq, Repr

/-- Whether the values have a place in the word. An immediate of twelve bits may be written with or
without a sign. -/
def OperandValues.Fits : OperandValues → Prop
  | immediate _ _ v | load _ v _ | store _ v _ => -2048 ≤ v ∧ v ≤ 4095
  | shift _ _ v | csrImmediate _ _ v => 0 ≤ v ∧ v ≤ 31
  | branch _ _ v => -4096 ≤ v ∧ v ≤ 4094 ∧ v % 2 = 0
  | upper _ v => -0x80000 ≤ v ∧ v ≤ 0xFFFFF
  | jump _ v => -0x100000 ≤ v ∧ v ≤ 0xFFFFE ∧ v % 2 = 0
  | registers _ _ _ | csr _ _ _ | none => True

/-- Whether the registers and the CSR are among those that exist. -/
def OperandValues.Valid : OperandValues → Prop
  | registers rd rs1 rs2 => rd < 32 ∧ rs1 < 32 ∧ rs2 < 32
  | immediate r r' _ | shift r r' _ | load r _ r' | store r _ r' | branch r r' _ => r < 32 ∧ r' < 32
  | upper rd _ | jump rd _ => rd < 32
  | csr rd address rs1 => rd < 32 ∧ address < 4096 ∧ rs1 < 32
  | csrImmediate rd address _ => rd < 32 ∧ address < 4096
  | none => True

/-- The format whose operands the values are. -/
def OperandValues.format : OperandValues → Format
  | registers _ _ _ => .r
  | immediate _ _ _ => .i
  | shift _ _ _ => .iShift
  | load _ _ _ => .load
  | store _ _ _ => .s
  | branch _ _ _ => .b
  | upper _ _ => .u
  | jump _ _ => .j
  | csr _ _ _ => .csr
  | csrImmediate _ _ _ => .csrImm
  | none => .system

/-- The word of a mnemonic with these operands; what does not fit is cut off. -/
def OperandValues.pack (m : Mnemonic) (values : OperandValues) : Word :=
  let row := m.description
  let opcode := row.opcode.code
  match values with
  | registers rd rs1 rs2 => Packing.r row.funct7 rs2 rs1 row.funct3 rd opcode
  | immediate rd rs1 v => Packing.i v rs1 row.funct3 rd opcode
  | shift rd rs1 amount => Packing.i (row.funct7 * 32 + amount % 32) rs1 row.funct3 rd opcode
  | load rd offset base => Packing.i offset base row.funct3 rd opcode
  | store rs2 offset base => Packing.s offset rs2 base row.funct3 opcode
  | branch rs1 rs2 offset => Packing.b offset rs2 rs1 row.funct3 opcode
  | upper rd v => Packing.u v rd opcode
  | jump rd offset => Packing.j offset rd opcode
  | csr rd address rs1 => Packing.i address rs1 row.funct3 rd opcode
  | csrImmediate rd address v => Packing.i address (v % 32).toNat row.funct3 rd opcode
  | none => Packing.i (if m = .ebreak then 1 else 0) 0 0 0 opcode

instance (v : OperandValues) : Decidable v.Fits := by
  cases v <;> unfold OperandValues.Fits <;> infer_instance

namespace Operands

/-- The offset and the base register of a memory operand. -/
def memoryValue? (o : Operands) (t : Text) : Option (Int × Nat) :=
  match Operand.memory? t with
  | some ([], base) => some (0, base)
  | some (offset, base) => (o.immediate? offset).map (·, base)
  | none => none

/-- The values that the tokens denote, if they are what the format asks for. -/
def values? (o : Operands) : Option OperandValues :=
  match o.mnemonic.format, o.tokens with
  | .r, [a, b, c] =>
    return .registers (← Register.ofToken? a) (← Register.ofToken? b) (← Register.ofToken? c)
  | .i, [a, b, t] =>
    return .immediate (← Register.ofToken? a) (← Register.ofToken? b) (← o.immediate? t)
  | .i, [a, t] =>
    if o.mnemonic = .jalr then do
      let rd ← Register.ofToken? a
      let (offset, base) ← o.memoryValue? t
      return .immediate rd base offset
    else none
  | .iShift, [a, b, t] =>
    return .shift (← Register.ofToken? a) (← Register.ofToken? b) (← o.immediate? t)
  | .load, [a, t] => do
    let rd ← Register.ofToken? a
    let (offset, base) ← o.memoryValue? t
    return .load rd offset base
  | .s, [a, t] => do
    let rs2 ← Register.ofToken? a
    let (offset, base) ← o.memoryValue? t
    return .store rs2 offset base
  | .b, [a, b, t] =>
    return .branch (← Register.ofToken? a) (← Register.ofToken? b) (← o.immediate? t)
  | .u, [a, t] => return .upper (← Register.ofToken? a) (← o.immediate? t)
  | .j, [a, t] => return .jump (← Register.ofToken? a) (← o.immediate? t)
  | .csr, [a, c, b] =>
    return .csr (← Register.ofToken? a) (← Csr.ofToken? c) (← Register.ofToken? b)
  | .csrImm, [a, c, t] =>
    return .csrImmediate (← Register.ofToken? a) (← Csr.ofToken? c) (← o.immediate? t)
  | .system, [] => some .none
  | _, _ => none

/-- The tokens are what the format asks for, and they denote the values. -/
inductive Denotes (o : Operands) : OperandValues → Prop
  | registers {a b c : Text} {rd rs1 rs2 : Nat} (hf : o.mnemonic.format = .r)
      (ht : o.tokens = [a, b, c]) (hd : Register.ofToken? a = some rd)
      (h1 : Register.ofToken? b = some rs1) (h2 : Register.ofToken? c = some rs2) :
      Denotes o (.registers rd rs1 rs2)
  | immediate {a b t : Text} {rd rs1 : Nat} {v : Int} (hf : o.mnemonic.format = .i)
      (ht : o.tokens = [a, b, t]) (hd : Register.ofToken? a = some rd)
      (h1 : Register.ofToken? b = some rs1) (hv : o.immediate? t = some v) :
      Denotes o (.immediate rd rs1 v)
  /-- The base and the offset of a `jalr` may also stand together. -/
  | jumpBase {a t : Text} {rd base : Nat} {offset : Int} (hjalr : o.mnemonic = .jalr)
      (ht : o.tokens = [a, t]) (hd : Register.ofToken? a = some rd)
      (hm : o.memoryValue? t = some (offset, base)) : Denotes o (.immediate rd base offset)
  | shift {a b t : Text} {rd rs1 : Nat} {v : Int} (hf : o.mnemonic.format = .iShift)
      (ht : o.tokens = [a, b, t]) (hd : Register.ofToken? a = some rd)
      (h1 : Register.ofToken? b = some rs1) (hv : o.immediate? t = some v) :
      Denotes o (.shift rd rs1 v)
  | load {a t : Text} {rd base : Nat} {offset : Int} (hf : o.mnemonic.format = .load)
      (ht : o.tokens = [a, t]) (hd : Register.ofToken? a = some rd)
      (hm : o.memoryValue? t = some (offset, base)) : Denotes o (.load rd offset base)
  | store {a t : Text} {rs2 base : Nat} {offset : Int} (hf : o.mnemonic.format = .s)
      (ht : o.tokens = [a, t]) (h2 : Register.ofToken? a = some rs2)
      (hm : o.memoryValue? t = some (offset, base)) : Denotes o (.store rs2 offset base)
  | branch {a b t : Text} {rs1 rs2 : Nat} {offset : Int} (hf : o.mnemonic.format = .b)
      (ht : o.tokens = [a, b, t]) (h1 : Register.ofToken? a = some rs1)
      (h2 : Register.ofToken? b = some rs2) (hv : o.immediate? t = some offset) :
      Denotes o (.branch rs1 rs2 offset)
  | upper {a t : Text} {rd : Nat} {v : Int} (hf : o.mnemonic.format = .u)
      (ht : o.tokens = [a, t]) (hd : Register.ofToken? a = some rd)
      (hv : o.immediate? t = some v) : Denotes o (.upper rd v)
  | jump {a t : Text} {rd : Nat} {offset : Int} (hf : o.mnemonic.format = .j)
      (ht : o.tokens = [a, t]) (hd : Register.ofToken? a = some rd)
      (hv : o.immediate? t = some offset) : Denotes o (.jump rd offset)
  | csr {a b c : Text} {rd address rs1 : Nat} (hf : o.mnemonic.format = .csr)
      (ht : o.tokens = [a, c, b]) (hd : Register.ofToken? a = some rd)
      (hc : Csr.ofToken? c = some address) (h1 : Register.ofToken? b = some rs1) :
      Denotes o (.csr rd address rs1)
  | csrImmediate {a c t : Text} {rd address : Nat} {v : Int} (hf : o.mnemonic.format = .csrImm)
      (ht : o.tokens = [a, c, t]) (hd : Register.ofToken? a = some rd)
      (hc : Csr.ofToken? c = some address) (hv : o.immediate? t = some v) :
      Denotes o (.csrImmediate rd address v)
  | none (hf : o.mnemonic.format = .system) (ht : o.tokens = []) : Denotes o .none

theorem denotes_of_values? {o : Operands} {v : OperandValues} (h : o.values? = some v) :
    o.Denotes v := by
  -- Where the number of tokens is another one, the format reads nothing.
  cases hf : o.mnemonic.format with
  | r =>
    match ht : o.tokens with
    | [a, b, c] =>
      simp only [values?, hf, ht, Option.bind_eq_bind, Option.bind_eq_some_iff, Option.pure_def,
        Option.some.injEq] at h
      obtain ⟨rd, hd, rs1, h1, rs2, h2, rfl⟩ := h
      exact .registers hf ht hd h1 h2
    | [] | [_] | [_, _] | _ :: _ :: _ :: _ :: _ => simp [values?, hf, ht] at h
  | i =>
    match ht : o.tokens with
    | [a, b, t] =>
      simp only [values?, hf, ht, Option.bind_eq_bind, Option.bind_eq_some_iff, Option.pure_def,
        Option.some.injEq] at h
      obtain ⟨rd, hd, rs1, h1, v, hv, rfl⟩ := h
      exact .immediate hf ht hd h1 hv
    | [a, t] =>
      simp only [values?, hf, ht] at h
      split_ifs at h with hjalr
      simp only [Option.bind_eq_bind, Option.bind_eq_some_iff, Option.pure_def,
        Option.some.injEq] at h
      obtain ⟨rd, hd, ⟨offset, base⟩, hm, rfl⟩ := h
      exact .jumpBase hjalr ht hd hm
    | [] | [_] | _ :: _ :: _ :: _ :: _ => simp [values?, hf, ht] at h
  | iShift =>
    match ht : o.tokens with
    | [a, b, t] =>
      simp only [values?, hf, ht, Option.bind_eq_bind, Option.bind_eq_some_iff, Option.pure_def,
        Option.some.injEq] at h
      obtain ⟨rd, hd, rs1, h1, v, hv, rfl⟩ := h
      exact .shift hf ht hd h1 hv
    | [] | [_] | [_, _] | _ :: _ :: _ :: _ :: _ => simp [values?, hf, ht] at h
  | load =>
    match ht : o.tokens with
    | [a, t] =>
      simp only [values?, hf, ht, Option.bind_eq_bind, Option.bind_eq_some_iff, Option.pure_def,
        Option.some.injEq] at h
      obtain ⟨rd, hd, ⟨offset, base⟩, hm, rfl⟩ := h
      exact .load hf ht hd hm
    | [] | [_] | _ :: _ :: _ :: _ => simp [values?, hf, ht] at h
  | s =>
    match ht : o.tokens with
    | [a, t] =>
      simp only [values?, hf, ht, Option.bind_eq_bind, Option.bind_eq_some_iff, Option.pure_def,
        Option.some.injEq] at h
      obtain ⟨rs2, h2, ⟨offset, base⟩, hm, rfl⟩ := h
      exact .store hf ht h2 hm
    | [] | [_] | _ :: _ :: _ :: _ => simp [values?, hf, ht] at h
  | b =>
    match ht : o.tokens with
    | [a, b, t] =>
      simp only [values?, hf, ht, Option.bind_eq_bind, Option.bind_eq_some_iff, Option.pure_def,
        Option.some.injEq] at h
      obtain ⟨rs1, h1, rs2, h2, offset, hv, rfl⟩ := h
      exact .branch hf ht h1 h2 hv
    | [] | [_] | [_, _] | _ :: _ :: _ :: _ :: _ => simp [values?, hf, ht] at h
  | u =>
    match ht : o.tokens with
    | [a, t] =>
      simp only [values?, hf, ht, Option.bind_eq_bind, Option.bind_eq_some_iff, Option.pure_def,
        Option.some.injEq] at h
      obtain ⟨rd, hd, v, hv, rfl⟩ := h
      exact .upper hf ht hd hv
    | [] | [_] | _ :: _ :: _ :: _ => simp [values?, hf, ht] at h
  | j =>
    match ht : o.tokens with
    | [a, t] =>
      simp only [values?, hf, ht, Option.bind_eq_bind, Option.bind_eq_some_iff, Option.pure_def,
        Option.some.injEq] at h
      obtain ⟨rd, hd, offset, hv, rfl⟩ := h
      exact .jump hf ht hd hv
    | [] | [_] | _ :: _ :: _ :: _ => simp [values?, hf, ht] at h
  | csr =>
    match ht : o.tokens with
    | [a, c, b] =>
      simp only [values?, hf, ht, Option.bind_eq_bind, Option.bind_eq_some_iff, Option.pure_def,
        Option.some.injEq] at h
      obtain ⟨rd, hd, address, hc, rs1, h1, rfl⟩ := h
      exact .csr hf ht hd hc h1
    | [] | [_] | [_, _] | _ :: _ :: _ :: _ :: _ => simp [values?, hf, ht] at h
  | csrImm =>
    match ht : o.tokens with
    | [a, c, t] =>
      simp only [values?, hf, ht, Option.bind_eq_bind, Option.bind_eq_some_iff, Option.pure_def,
        Option.some.injEq] at h
      obtain ⟨rd, hd, address, hc, v, hv, rfl⟩ := h
      exact .csrImmediate hf ht hd hc hv
    | [] | [_] | [_, _] | _ :: _ :: _ :: _ :: _ => simp [values?, hf, ht] at h
  | system =>
    match ht : o.tokens with
    | [] =>
      simp only [values?, hf, ht, Option.some.injEq] at h
      obtain rfl := h
      exact .none hf ht
    | _ :: _ => simp [values?, hf, ht] at h

theorem Denotes.values?_eq {o : Operands} {v : OperandValues} (h : o.Denotes v) :
    o.values? = some v := by
  cases h with
  | registers hf ht hd h1 h2 => simp [values?, hf, ht, hd, h1, h2]
  | immediate hf ht hd h1 hv => simp [values?, hf, ht, hd, h1, hv]
  | jumpBase hjalr ht hd hm =>
    have hf : o.mnemonic.format = .i := by rw [hjalr]; rfl
    simp only [values?, hf, ht]
    rw [if_pos hjalr, hd, hm]
    rfl
  | shift hf ht hd h1 hv => simp [values?, hf, ht, hd, h1, hv]
  | load hf ht hd hm => simp [values?, hf, ht, hd, hm]
  | store hf ht h2 hm => simp [values?, hf, ht, h2, hm]
  | branch hf ht h1 h2 hv => simp [values?, hf, ht, h1, h2, hv]
  | upper hf ht hd hv => simp [values?, hf, ht, hd, hv]
  | jump hf ht hd hv => simp [values?, hf, ht, hd, hv]
  | csr hf ht hd hc h1 => simp [values?, hf, ht, hd, hc, h1]
  | csrImmediate hf ht hd hc hv => simp [values?, hf, ht, hd, hc, hv]
  | none hf ht => simp [values?, hf, ht]

/-- Reading the operands at once gives the values that the tokens denote. -/
theorem values?_eq_some_iff {o : Operands} {v : OperandValues} : o.values? = some v ↔ o.Denotes v :=
  ⟨denotes_of_values?, Denotes.values?_eq⟩

theorem base_lt_of_memory? {t offset : Text} {base : Nat}
    (h : Operand.memory? t = some (offset, base)) : base < 32 := by
  unfold Operand.memory? at h
  split at h
  · split at h
    · obtain ⟨r, hr, heq⟩ := Option.map_eq_some_iff.1 h
      obtain ⟨-, rfl⟩ := Prod.mk.inj heq
      exact Register.lt_of_ofToken? hr
    · contradiction
  · contradiction

theorem base_lt_of_memoryValue? {o : Operands} {t : Text} {value : Int × Nat}
    (h : o.memoryValue? t = some value) : value.2 < 32 := by
  unfold memoryValue? at h
  split at h
  · rename_i hm
    obtain rfl := Option.some.inj h
    exact base_lt_of_memory? hm
  · rename_i hm
    obtain ⟨v, -, rfl⟩ := Option.map_eq_some_iff.1 h
    exact base_lt_of_memory? hm
  · contradiction

theorem valid_of_values? {o : Operands} {v : OperandValues} (h : o.values? = some v) : v.Valid := by
  cases values?_eq_some_iff.1 h with
  | registers _ _ hd h1 h2 =>
    exact ⟨Register.lt_of_ofToken? hd, Register.lt_of_ofToken? h1, Register.lt_of_ofToken? h2⟩
  | immediate _ _ hd h1 _ | shift _ _ hd h1 _ | branch _ _ hd h1 _ =>
    exact ⟨Register.lt_of_ofToken? hd, Register.lt_of_ofToken? h1⟩
  | jumpBase _ _ hd hm | load _ _ hd hm | store _ _ hd hm =>
    exact ⟨Register.lt_of_ofToken? hd, base_lt_of_memoryValue? hm⟩
  | upper _ _ hd _ | jump _ _ hd _ => exact Register.lt_of_ofToken? hd
  | csr _ _ hd hc h1 =>
    exact ⟨Register.lt_of_ofToken? hd, Csr.lt_of_ofToken? hc, Register.lt_of_ofToken? h1⟩
  | csrImmediate _ _ hd hc _ => exact ⟨Register.lt_of_ofToken? hd, Csr.lt_of_ofToken? hc⟩
  | none _ _ => trivial

/-! ## Operands without notes -/

variable {o : Operands} {index : Nat}

theorem exists_token_of_errors_read {α : Type} {substitute : α} {reading : Text → Noted α}
    {f : Text → Option α} (hf : ∀ t, (reading t).errors = [] → f t = some (reading t).value)
    (h : (o.read index substitute reading).errors = []) :
    ∃ t, o.tokens[index]? = some t ∧ f t = some (o.read index substitute reading).value := by
  unfold read token at h ⊢
  cases ht : o.tokens[index]? with
  | none => simp [ht] at h
  | some t =>
    simp only [ht, Noted.errors_bind, Noted.errors_pure, Noted.value_pure, List.nil_append,
      Noted.value_bind] at h ⊢
    exact ⟨t, rfl, hf t h⟩

theorem exists_token_of_errors_register (h : (o.register index).errors = []) :
    ∃ t, o.tokens[index]? = some t ∧ Register.ofToken? t = some (o.register index).value :=
  exists_token_of_errors_read (fun _ => Noted.eq_some_of_errors_ofOption) h

theorem exists_token_of_errors_csr (h : (o.csr index).errors = []) :
    ∃ t, o.tokens[index]? = some t ∧ Csr.ofToken? t = some (o.csr index).value :=
  exists_token_of_errors_read (fun _ => Noted.eq_some_of_errors_ofOption) h

theorem exists_token_of_errors_immediate (h : (o.immediate index).errors = []) :
    ∃ t, o.tokens[index]? = some t ∧ o.immediate? t = some (o.immediate index).value :=
  exists_token_of_errors_read (fun _ => Noted.eq_some_of_errors_ofOption) h

theorem exists_token_of_errors_memory (h : (o.memory index).errors = []) :
    ∃ t, o.tokens[index]? = some t ∧ o.memoryValue? t = some (o.memory index).value := by
  refine exists_token_of_errors_read ?_ h
  intro t ht
  unfold memoryValue?
  cases hm : Operand.memory? t with
  | none =>
    rw [hm] at ht
    contradiction
  | some parsed =>
    obtain ⟨offset, base⟩ := parsed
    rw [hm] at ht
    cases offset with
    | nil => rfl
    | cons c cs =>
      have ht' : (o.immediateOf (c :: cs)).errors = [] := by simpa using ht
      have hv : o.immediate? (c :: cs) = some (o.immediateOf (c :: cs)).value :=
        Noted.eq_some_of_errors_ofOption ht'
      simp [hv]

theorem length_le_of_errors_expectCount {count : Nat} (h : (o.expectCount count).errors = []) :
    o.tokens.length ≤ count := by
  unfold expectCount at h
  cases ht : o.tokens[count]? with
  | none => exact List.getElem?_eq_none_iff.1 ht
  | some t => simp [ht, Noted.note] at h

theorem le_and_le_of_errors_expectRange {v min max : Int}
    (h : (expectRange v min max).errors = []) : min ≤ v ∧ v ≤ max := by
  unfold expectRange at h
  split at h
  · simp [Noted.note] at h
  · omega

theorem even_of_errors_expectEven {v : Int} (h : (expectEven v).errors = []) : v % 2 = 0 := by
  unfold expectEven at h
  split at h
  · assumption
  · simp [Noted.note] at h

/-! ## Encoding as packing -/

theorem tokens_eq_two {a b : Text} (ha : o.tokens[0]? = some a) (hb : o.tokens[1]? = some b)
    (h : o.tokens.length ≤ 2) : o.tokens = [a, b] := by
  match ht : o.tokens with
  | [x, y] => simp_all
  | [] | [_] => simp_all
  | _ :: _ :: _ :: _ => rw [ht, List.length_cons, List.length_cons, List.length_cons] at h; omega

theorem tokens_eq_three {a b c : Text} (ha : o.tokens[0]? = some a) (hb : o.tokens[1]? = some b)
    (hc : o.tokens[2]? = some c) (h : o.tokens.length ≤ 3) : o.tokens = [a, b, c] := by
  match ht : o.tokens with
  | [x, y, z] => simp_all
  | [] | [_] | [_, _] => simp_all
  | _ :: _ :: _ :: _ :: _ =>
    rw [ht, List.length_cons, List.length_cons, List.length_cons, List.length_cons] at h; omega

/-- The errors of the operands of a format that takes two registers and an immediate. -/
theorem exists_tokens_of_two_registers_immediate (h0 : (o.register 0).errors = [])
    (h1 : (o.register 1).errors = []) (h2 : (o.immediate 2).errors = [])
    (hn : (o.expectCount 3).errors = []) :
    ∃ a b t, o.tokens = [a, b, t] ∧ Register.ofToken? a = some (o.register 0).value ∧
      Register.ofToken? b = some (o.register 1).value ∧
      o.immediate? t = some (o.immediate 2).value := by
  obtain ⟨a, hat, ha⟩ := exists_token_of_errors_register h0
  obtain ⟨b, hbt, hb⟩ := exists_token_of_errors_register h1
  obtain ⟨t, htt, ht⟩ := exists_token_of_errors_immediate h2
  exact ⟨a, b, t, tokens_eq_three hat hbt htt (length_le_of_errors_expectCount hn), ha, hb, ht⟩

/-- The errors of the operands of a format that takes a register and a memory operand. -/
theorem exists_tokens_of_register_memory (h0 : (o.register 0).errors = [])
    (h1 : (o.memory 1).errors = []) (hn : o.tokens.length ≤ 2) :
    ∃ a t, o.tokens = [a, t] ∧ Register.ofToken? a = some (o.register 0).value ∧
      o.memoryValue? t = some ((o.memory 1).value.1, (o.memory 1).value.2) := by
  obtain ⟨a, hat, ha⟩ := exists_token_of_errors_register h0
  obtain ⟨t, htt, ht⟩ := exists_token_of_errors_memory h1
  exact ⟨a, t, tokens_eq_two hat htt hn, ha, ht⟩

/-- The errors of the operands of a format that takes a register and an immediate. -/
theorem exists_tokens_of_register_immediate (h0 : (o.register 0).errors = [])
    (h1 : (o.immediate 1).errors = []) (hn : (o.expectCount 2).errors = []) :
    ∃ a t, o.tokens = [a, t] ∧ Register.ofToken? a = some (o.register 0).value ∧
      o.immediate? t = some (o.immediate 1).value := by
  obtain ⟨a, hat, ha⟩ := exists_token_of_errors_register h0
  obtain ⟨t, htt, ht⟩ := exists_token_of_errors_immediate h1
  exact ⟨a, t, tokens_eq_two hat htt (length_le_of_errors_expectCount hn), ha, ht⟩

/-- The values that encoding reads, with a substitute for each that the tokens do not give. -/
def readValues (o : Operands) : OperandValues :=
  match o.mnemonic.format with
  | .r => .registers (o.register 0).value (o.register 1).value (o.register 2).value
  | .i => .immediate (o.register 0).value o.jumpBase.value.1 o.jumpBase.value.2
  | .iShift => .shift (o.register 0).value (o.register 1).value (o.immediate 2).value
  | .load => .load (o.register 0).value (o.memory 1).value.1 (o.memory 1).value.2
  | .s => .store (o.register 0).value (o.memory 1).value.1 (o.memory 1).value.2
  | .b => .branch (o.register 0).value (o.register 1).value (o.immediate 2).value
  | .u => .upper (o.register 0).value (o.immediate 1).value
  | .j => .jump (o.register 0).value (o.immediate 1).value
  | .csr => .csr (o.register 0).value (o.csr 1).value (o.register 2).value
  | .csrImm => .csrImmediate (o.register 0).value (o.csr 1).value (o.immediate 2).value
  | .system => .none

theorem format_readValues (o : Operands) : o.readValues.format = o.mnemonic.format := by
  unfold readValues
  cases o.mnemonic.format <;> rfl

/-- The word is always packed from the values that are read. -/
theorem value_encode (o : Operands) : o.encode.value = o.readValues.pack o.mnemonic := by
  have hrow : o.mnemonic.description.format = o.mnemonic.format := rfl
  unfold readValues
  cases hf : o.mnemonic.format <;> simp [encode, hrow, hf, OperandValues.pack]

/-- Both ways to write the base and the immediate of a `jalr`. -/
theorem values?_of_errors_jumpBase (hf : o.mnemonic.format = .i) (h0 : (o.register 0).errors = [])
    (hbase : o.jumpBase.errors = []) :
    o.values? =
      some (.immediate (o.register 0).value o.jumpBase.value.1 o.jumpBase.value.2) := by
  unfold jumpBase at hbase ⊢
  split at hbase
  · rename_i hj
    rw [if_pos hj]
    simp only [Noted.errors_bind, Noted.errors_pure, List.append_nil] at hbase
    obtain ⟨a, t, ht, ha, hm⟩ := exists_tokens_of_register_memory h0 hbase hj.2.le
    exact (Denotes.jumpBase hj.1 ht ha hm).values?_eq
  · rename_i hj
    rw [if_neg hj]
    simp only [Noted.errors_bind, Noted.errors_pure, List.append_nil,
      List.append_eq_nil_iff] at hbase
    obtain ⟨h1, h2, hn⟩ := hbase
    obtain ⟨a, b, t, ht, ha, hb, hv⟩ := exists_tokens_of_two_registers_immediate h0 h1 h2 hn
    exact (Denotes.immediate hf ht ha hb hv).values?_eq

/-- Without notes the values that are read are those that the tokens denote. -/
theorem values?_of_errors_encode (h : o.encode.errors = []) :
    o.values? = some o.readValues ∧ o.readValues.Fits := by
  have hrow : o.mnemonic.description.format = o.mnemonic.format := rfl
  unfold readValues
  -- The errors of an encoding are those of its operands, so none of these has any.
  cases hf : o.mnemonic.format with
    simp only [encode, hrow, hf, Noted.errors_bind, Noted.errors_pure, List.append_nil,
      List.append_eq_nil_iff] at h
  | r =>
    obtain ⟨h0, h1, h2, hn⟩ := h
    obtain ⟨a, hat, ha⟩ := exists_token_of_errors_register h0
    obtain ⟨b, hbt, hb⟩ := exists_token_of_errors_register h1
    obtain ⟨c, hct, hc⟩ := exists_token_of_errors_register h2
    have ht := tokens_eq_three hat hbt hct (length_le_of_errors_expectCount hn)
    exact ⟨(Denotes.registers hf ht ha hb hc).values?_eq, trivial⟩
  | i =>
    obtain ⟨h0, hbase, hr⟩ := h
    exact ⟨values?_of_errors_jumpBase hf h0 hbase, le_and_le_of_errors_expectRange hr⟩
  | iShift =>
    obtain ⟨h0, h1, h2, hn, hr⟩ := h
    obtain ⟨a, b, t, ht, ha, hb, hv⟩ := exists_tokens_of_two_registers_immediate h0 h1 h2 hn
    exact ⟨(Denotes.shift hf ht ha hb hv).values?_eq, le_and_le_of_errors_expectRange hr⟩
  | load =>
    obtain ⟨h0, h1, hn, hr⟩ := h
    obtain ⟨a, t, ht, ha, hm⟩ :=
      exists_tokens_of_register_memory h0 h1 (length_le_of_errors_expectCount hn)
    exact ⟨(Denotes.load hf ht ha hm).values?_eq, le_and_le_of_errors_expectRange hr⟩
  | s =>
    obtain ⟨h0, h1, hn, hr⟩ := h
    obtain ⟨a, t, ht, ha, hm⟩ :=
      exists_tokens_of_register_memory h0 h1 (length_le_of_errors_expectCount hn)
    exact ⟨(Denotes.store hf ht ha hm).values?_eq, le_and_le_of_errors_expectRange hr⟩
  | b =>
    obtain ⟨h0, h1, h2, hn, hr, he⟩ := h
    obtain ⟨a, b, t, ht, ha, hb, hv⟩ := exists_tokens_of_two_registers_immediate h0 h1 h2 hn
    obtain ⟨hmin, hmax⟩ := le_and_le_of_errors_expectRange hr
    exact ⟨(Denotes.branch hf ht ha hb hv).values?_eq, hmin, hmax, even_of_errors_expectEven he⟩
  | u =>
    obtain ⟨h0, h1, hn, hr⟩ := h
    obtain ⟨a, t, ht, ha, hv⟩ := exists_tokens_of_register_immediate h0 h1 hn
    exact ⟨(Denotes.upper hf ht ha hv).values?_eq, le_and_le_of_errors_expectRange hr⟩
  | j =>
    obtain ⟨h0, h1, hn, hr, he⟩ := h
    obtain ⟨a, t, ht, ha, hv⟩ := exists_tokens_of_register_immediate h0 h1 hn
    obtain ⟨hmin, hmax⟩ := le_and_le_of_errors_expectRange hr
    exact ⟨(Denotes.jump hf ht ha hv).values?_eq, hmin, hmax, even_of_errors_expectEven he⟩
  | csr =>
    obtain ⟨h0, h1, h2, hn⟩ := h
    obtain ⟨a, hat, ha⟩ := exists_token_of_errors_register h0
    obtain ⟨c, hct, hc⟩ := exists_token_of_errors_csr h1
    obtain ⟨b, hbt, hb⟩ := exists_token_of_errors_register h2
    have ht := tokens_eq_three hat hct hbt (length_le_of_errors_expectCount hn)
    exact ⟨(Denotes.csr hf ht ha hc hb).values?_eq, trivial⟩
  | csrImm =>
    obtain ⟨h0, h1, h2, hn, hr⟩ := h
    obtain ⟨a, hat, ha⟩ := exists_token_of_errors_register h0
    obtain ⟨c, hct, hc⟩ := exists_token_of_errors_csr h1
    obtain ⟨t, htt, hv⟩ := exists_token_of_errors_immediate h2
    have ht := tokens_eq_three hat hct htt (length_le_of_errors_expectCount hn)
    exact ⟨(Denotes.csrImmediate hf ht ha hc hv).values?_eq, le_and_le_of_errors_expectRange hr⟩
  | system =>
    have ht := List.length_eq_zero_iff.1 (Nat.le_zero.1 (length_le_of_errors_expectCount h))
    exact ⟨(Denotes.none hf ht).values?_eq, trivial⟩

/-! ## Encoding without notes -/

theorem register_of_token {t : Text} {r : Nat} (ht : o.tokens[index]? = some t)
    (h : Register.ofToken? t = some r) : o.register index = pure r := by
  rw [register, read, token, ht]
  dsimp only
  rw [Noted.pure_bind]
  dsimp only
  rw [h]
  rfl

theorem csr_of_token {t : Text} {address : Nat} (ht : o.tokens[index]? = some t)
    (h : Csr.ofToken? t = some address) : o.csr index = pure address := by
  rw [csr, read, token, ht]
  dsimp only
  rw [Noted.pure_bind]
  dsimp only
  rw [h]
  rfl

theorem immediateOf_of_immediate? {t : Text} {v : Int} (h : o.immediate? t = some v) :
    o.immediateOf t = pure v := by
  rw [immediateOf, h]
  rfl

theorem immediate_of_token {t : Text} {v : Int} (ht : o.tokens[index]? = some t)
    (h : o.immediate? t = some v) : o.immediate index = pure v := by
  rw [immediate, read, token, ht]
  exact immediateOf_of_immediate? h

theorem memory_of_token {t : Text} {value : Int × Nat} (ht : o.tokens[index]? = some t)
    (h : o.memoryValue? t = some value) : o.memory index = pure value := by
  unfold memoryValue? at h
  rw [memory, read, token, ht]
  dsimp only
  rw [Noted.pure_bind]
  dsimp only
  cases hm : Operand.memory? t with
  | none =>
    rw [hm] at h
    contradiction
  | some parsed =>
    obtain ⟨offset, base⟩ := parsed
    rw [hm] at h
    cases offset with
    | nil =>
      obtain rfl := Option.some.inj h
      rfl
    | cons c cs =>
      obtain ⟨v, hv, rfl⟩ := Option.map_eq_some_iff.1 h
      dsimp only
      rw [immediateOf_of_immediate? hv, Noted.pure_bind]

theorem expectCount_of_length {count : Nat} (h : o.tokens.length = count) :
    o.expectCount count = pure () := by
  rw [expectCount, List.getElem?_eq_none h.le]

theorem expectRange_of_le {v min max : Int} (hmin : min ≤ v) (hmax : v ≤ max) :
    expectRange v min max = pure () := if_neg (by omega)

theorem expectEven_of_even {v : Int} (h : v % 2 = 0) : expectEven v = pure () := if_pos h

theorem jumpBase_of_three {a b t : Text} {rs1 : Nat} {v : Int} (ht : o.tokens = [a, b, t])
    (h1 : Register.ofToken? b = some rs1) (hv : o.immediate? t = some v) :
    o.jumpBase = pure (rs1, v) := by
  have hlength : o.tokens.length = 3 := by rw [ht]; rfl
  rw [jumpBase, if_neg (by omega), register_of_token (by rw [ht]; rfl) h1, Noted.pure_bind,
    immediate_of_token (by rw [ht]; rfl) hv, Noted.pure_bind, expectCount_of_length hlength,
    Noted.pure_bind]

theorem jumpBase_of_two {a t : Text} {value : Int × Nat} (hjalr : o.mnemonic = .jalr)
    (ht : o.tokens = [a, t]) (hm : o.memoryValue? t = some value) :
    o.jumpBase = pure (value.2, value.1) := by
  have hlength : o.tokens.length = 2 := by rw [ht]; rfl
  rw [jumpBase, if_pos ⟨hjalr, hlength⟩, memory_of_token (by rw [ht]; rfl) hm, Noted.pure_bind]

/-- Tokens that denote values that fit are encoded without a note. -/
theorem encode_of_values? {v : OperandValues} (h : o.values? = some v) (hfits : v.Fits) :
    o.encode = pure (v.pack o.mnemonic) := by
  obtain ⟨op, tokens, labels, address⟩ := o
  have hrow : op.description.format = op.format := rfl
  -- In each format the operands are read without a note one after the other.
  cases values?_eq_some_iff.1 h with
  | registers hf ht hd h1 h2 =>
    obtain rfl : tokens = _ := ht
    rw [encode, hrow, hf]
    dsimp only
    rw [register_of_token rfl hd, Noted.pure_bind, register_of_token rfl h1, Noted.pure_bind,
      register_of_token rfl h2, Noted.pure_bind, expectCount_of_length (by rfl), Noted.pure_bind]
    rfl
  | immediate hf ht hd h1 hv =>
    obtain rfl : tokens = _ := ht
    rw [encode, hrow, hf]
    dsimp only
    rw [register_of_token rfl hd, Noted.pure_bind, jumpBase_of_three rfl h1 hv, Noted.pure_bind,
      expectRange_of_le hfits.1 hfits.2, Noted.pure_bind]
    rfl
  | jumpBase hjalr ht hd hm =>
    obtain rfl : op = .jalr := hjalr
    obtain rfl : tokens = _ := ht
    rw [encode, hrow]
    dsimp only [Mnemonic.format, Mnemonic.description]
    rw [register_of_token rfl hd, Noted.pure_bind, jumpBase_of_two rfl rfl hm,
      Noted.pure_bind, expectRange_of_le hfits.1 hfits.2, Noted.pure_bind]
    rfl
  | shift hf ht hd h1 hv =>
    obtain rfl : tokens = _ := ht
    rw [encode, hrow, hf]
    dsimp only
    rw [register_of_token rfl hd, Noted.pure_bind, register_of_token rfl h1, Noted.pure_bind,
      immediate_of_token rfl hv, Noted.pure_bind, expectCount_of_length (by rfl), Noted.pure_bind,
      expectRange_of_le hfits.1 hfits.2, Noted.pure_bind]
    rfl
  | load hf ht ha hm | store hf ht ha hm =>
    obtain rfl : tokens = _ := ht
    rw [encode, hrow, hf]
    dsimp only
    rw [register_of_token rfl ha, Noted.pure_bind, memory_of_token rfl hm, Noted.pure_bind,
      expectCount_of_length (by rfl), Noted.pure_bind, expectRange_of_le hfits.1 hfits.2,
      Noted.pure_bind]
    rfl
  | branch hf ht h1 h2 hv =>
    obtain rfl : tokens = _ := ht
    rw [encode, hrow, hf]
    dsimp only
    rw [register_of_token rfl h1, Noted.pure_bind, register_of_token rfl h2, Noted.pure_bind,
      immediate_of_token rfl hv, Noted.pure_bind, expectCount_of_length (by rfl), Noted.pure_bind,
      expectRange_of_le hfits.1 hfits.2.1, Noted.pure_bind, expectEven_of_even hfits.2.2,
      Noted.pure_bind]
    rfl
  | upper hf ht hd hv =>
    obtain rfl : tokens = _ := ht
    rw [encode, hrow, hf]
    dsimp only
    rw [register_of_token rfl hd, Noted.pure_bind, immediate_of_token rfl hv, Noted.pure_bind,
      expectCount_of_length (by rfl), Noted.pure_bind, expectRange_of_le hfits.1 hfits.2,
      Noted.pure_bind]
    rfl
  | jump hf ht hd hv =>
    obtain rfl : tokens = _ := ht
    rw [encode, hrow, hf]
    dsimp only
    rw [register_of_token rfl hd, Noted.pure_bind, immediate_of_token rfl hv, Noted.pure_bind,
      expectCount_of_length (by rfl), Noted.pure_bind, expectRange_of_le hfits.1 hfits.2.1,
      Noted.pure_bind, expectEven_of_even hfits.2.2, Noted.pure_bind]
    rfl
  | csr hf ht hd hc h1 =>
    obtain rfl : tokens = _ := ht
    rw [encode, hrow, hf]
    dsimp only
    rw [register_of_token rfl hd, Noted.pure_bind, csr_of_token rfl hc, Noted.pure_bind,
      register_of_token rfl h1, Noted.pure_bind, expectCount_of_length (by rfl), Noted.pure_bind]
    rfl
  | csrImmediate hf ht hd hc hv =>
    obtain rfl : tokens = _ := ht
    rw [encode, hrow, hf]
    dsimp only
    rw [register_of_token rfl hd, Noted.pure_bind, csr_of_token rfl hc, Noted.pure_bind,
      immediate_of_token rfl hv, Noted.pure_bind, expectCount_of_length (by rfl), Noted.pure_bind,
      expectRange_of_le hfits.1 hfits.2, Noted.pure_bind]
    rfl
  | none hf ht =>
    obtain rfl : tokens = _ := ht
    rw [encode, hrow, hf]
    dsimp only
    rw [expectCount_of_length (by rfl), Noted.pure_bind]
    rfl

end Operands

end RefHart
