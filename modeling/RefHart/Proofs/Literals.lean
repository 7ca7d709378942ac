import Mathlib
import RefHart.Proofs.Refinement

/-!
# Literals and labels

An instruction has at most one token for an immediate or an offset (`immediateToken?`), and only this
token is looked up among the labels. So the labels of a source matter to an instruction only if the
token is the name of one, and then also if it could be read as a literal.

**Theorem (`immediate_of_written`).** In a program without errors such a token stands for the
distance to the label if it is the name of one, and else for the number that it denotes as a literal.
An instruction whose token is no name is encoded as if the source had no labels.

Nothing keeps a source from giving a label the name of a number, and then the number is out of reach
(`not_forall_encode_empty`).
-/

namespace RefHart

/-! ## Tokens of immediates -/

/-- The offset of a memory operand, if it is written. -/
def Operand.offset? (token : Text) : Option Text :=
  ((memory? token).map (·.1)).filter (· ≠ [])

/-- The token of an immediate or an offset among the operands of an instruction. -/
def immediateToken? (format : Format) (tokens : List Text) : Option Text :=
  match format, tokens with
  | .i, [_, _, t] | .iShift, [_, _, t] | .b, [_, _, t] | .csrImm, [_, _, t] => some t
  | .u, [_, t] | .j, [_, t] => some t
  | .i, [_, t] | .load, [_, t] | .s, [_, t] => Operand.offset? t
  | _, _ => none

/-- The immediate or offset among operand values. -/
def OperandValues.immediate? : OperandValues → Option Int
  | immediate _ _ v | shift _ _ v | load _ v _ | store _ v _ | branch _ _ v | upper _ v | jump _ v
  | csrImmediate _ _ v => some v
  | registers _ _ _ | csr _ _ _ | none => Option.none

/-- Exchanging the registers of a pseudo-branch leaves the token where it is. -/
theorem immediateToken?_canonical (op : Mnemonic) (tokens : List Text) :
    immediateToken? op.canonical.format (canonicalOperands op tokens) =
      immediateToken? op.format tokens := by
  rw [canonicalOperands, op.format_canonical]
  split_ifs with hpseudo
  · rw [(Mnemonic.format_of_isPseudo hpseudo).1]
    rcases tokens with _ | ⟨a, _ | ⟨b, _ | ⟨c, _ | ⟨d, rest⟩⟩⟩⟩ <;> rfl
  · rfl

namespace Operands

variable {o : Operands} {t : Text} {v : OperandValues}

theorem immediate?_of_memoryValue? {token : Text} {value : Int × Nat}
    (h : o.memoryValue? token = some value) (ht : Operand.offset? token = some t) :
    o.immediate? t = some value.1 := by
  obtain ⟨hmap, hne⟩ := Option.filter_eq_some_iff.1 ht
  obtain ⟨⟨offset, base⟩, hm, rfl⟩ := Option.map_eq_some_iff.1 hmap
  rw [memoryValue?, hm] at h
  cases offset with
  | nil => simp at hne
  | cons c cs =>
    obtain ⟨n, hn, rfl⟩ := Option.map_eq_some_iff.1 h
    exact hn

/-- The immediate is what its token denotes. -/
theorem immediate?_of_values? (h : o.values? = some v)
    (ht : immediateToken? o.mnemonic.format o.tokens = some t) : v.immediate? = o.immediate? t := by
  cases values?_eq_some_iff.1 h with
  | registers hf _ _ _ _ | csr hf _ _ _ _ | none hf _ =>
    rw [hf] at ht
    contradiction
  | immediate hf htokens _ _ hv | shift hf htokens _ _ hv | branch hf htokens _ _ hv
  | csrImmediate hf htokens _ _ hv | upper hf htokens _ hv | jump hf htokens _ hv =>
    rw [hf, htokens] at ht
    obtain rfl := Option.some.inj ht
    exact hv.symm
  | jumpBase hjalr htokens _ hm =>
    rw [hjalr, htokens] at ht
    exact (immediate?_of_memoryValue? hm ht).symm
  | load hf htokens _ hm | store hf htokens _ hm =>
    rw [hf, htokens] at ht
    exact (immediate?_of_memoryValue? hm ht).symm

theorem memoryValue?_congr {o o' : Operands} {token : Text}
    (h : ∀ t, Operand.offset? token = some t → o.immediate? t = o'.immediate? t) :
    o.memoryValue? token = o'.memoryValue? token := by
  unfold memoryValue?
  cases hm : Operand.memory? token with
  | none => rfl
  | some parsed =>
    obtain ⟨offset, base⟩ := parsed
    cases offset with
    | nil => rfl
    | cons c cs =>
      dsimp only
      rw [h (c :: cs) (by rw [Operand.offset?, hm]; rfl)]

theorem Denotes.of_labels {labels : LabelTable} (hd : o.Denotes v)
    (h : ∀ t, immediateToken? o.mnemonic.format o.tokens = some t →
      o.immediate? t = { o with labels }.immediate? t) : { o with labels }.Denotes v := by
  cases hd with
  | registers hf ht hd h1 h2 => exact .registers hf ht hd h1 h2
  | immediate hf ht hd h1 hv =>
    exact .immediate hf ht hd h1 (h _ (by rw [hf, ht]; rfl) ▸ hv)
  | jumpBase hjalr ht hd hm =>
    have hmemory := memoryValue?_congr fun t htoken => h t (by rw [hjalr, ht]; exact htoken)
    exact .jumpBase hjalr ht hd (hmemory ▸ hm)
  | shift hf ht hd h1 hv => exact .shift hf ht hd h1 (h _ (by rw [hf, ht]; rfl) ▸ hv)
  | load hf ht hd hm =>
    have hmemory := memoryValue?_congr fun t htoken => h t (by rw [hf, ht]; exact htoken)
    exact .load hf ht hd (hmemory ▸ hm)
  | store hf ht h2 hm =>
    have hmemory := memoryValue?_congr fun t htoken => h t (by rw [hf, ht]; exact htoken)
    exact .store hf ht h2 (hmemory ▸ hm)
  | branch hf ht h1 h2 hv => exact .branch hf ht h1 h2 (h _ (by rw [hf, ht]; rfl) ▸ hv)
  | upper hf ht hd hv => exact .upper hf ht hd (h _ (by rw [hf, ht]; rfl) ▸ hv)
  | jump hf ht hd hv => exact .jump hf ht hd (h _ (by rw [hf, ht]; rfl) ▸ hv)
  | csr hf ht hd hc h1 => exact .csr hf ht hd hc h1
  | csrImmediate hf ht hd hc hv =>
    exact .csrImmediate hf ht hd hc (h _ (by rw [hf, ht]; rfl) ▸ hv)
  | none hf ht => exact .none hf ht

/-- Labels matter to the token of the immediate only. -/
theorem values?_congr {op : Mnemonic} {tokens : List Text} {labels labels' : LabelTable}
    {address : Word}
    (h : ∀ t, immediateToken? op.format tokens = some t →
      immediate? ⟨op, tokens, labels, address⟩ t = immediate? ⟨op, tokens, labels', address⟩ t) :
    values? ⟨op, tokens, labels, address⟩ = values? ⟨op, tokens, labels', address⟩ := by
  apply Option.ext
  intro v
  rw [values?_eq_some_iff, values?_eq_some_iff]
  exact ⟨fun hd => hd.of_labels h, fun hd => hd.of_labels fun t ht => (h t ht).symm⟩

end Operands

/-! ## Encoding without labels -/

/-- Without the name of a label among its operands, an instruction is encoded as if there were no
labels. -/
theorem encode_empty_of_labels_eq_none {op : Mnemonic} {tokens : List Text} {labels : LabelTable}
    {address : Word} (herrors : (encode op tokens labels address).errors = [])
    (h : ∀ t, immediateToken? op.format tokens = some t → labels[t]? = none) :
    encode op tokens ∅ address = encode op tokens labels address := by
  obtain ⟨hv, hfits⟩ := Operands.values?_of_errors_encode herrors
  have hempty : Operands.values? ⟨op.canonical, canonicalOperands op tokens, ∅, address⟩ =
      Operands.values? ⟨op.canonical, canonicalOperands op tokens, labels, address⟩ := by
    apply Operands.values?_congr
    intro t ht
    rw [immediateToken?_canonical] at ht
    rw [Operands.immediate?, Operands.immediate?, h t ht, Std.TreeMap.getElem?_emptyc]
  calc encode op tokens ∅ address
      = pure (OperandValues.pack op.canonical _) :=
        Operands.encode_of_values? (hempty.trans hv) hfits
    _ = encode op tokens labels address := (Operands.encode_of_values? hv hfits).symm

/-! ## Programs -/

section Programs

variable {t : Text} {k : Nat}

/-- The token of an immediate stands for the distance to the label that it names, and else for its
number. Where it names no label, the instruction is encoded as if there were none. -/
theorem immediate_of_written (herrors : (assemble t).hasErrors = false)
    (hk : k < (assemble t).lines.length) :
    let address : Word := BitVec.ofNat 32 (4 * k)
    let word := (assemble t).lines[k].word
    ∃ slot op v, Written t k slot op v ∧ v.Fits ∧ (Instruction.decode word).op = some op.canonical ∧
      (Instruction.decode word).Carries (v.canonical op) ∧
      (∀ token, immediateToken? op.format slot.operands = some token →
        (∀ n, Operand.literal? token = some n → (assemble t).labels[token]? = none →
          v.immediate? = some n) ∧
        ∀ target, (assemble t).labels[token]? = some target →
          v.immediate? = some ((target.toNat : Int) - address.toNat)) ∧
      ((∀ token, immediateToken? op.format slot.operands = some token →
          (assemble t).labels[token]? = none) →
        word = (encode op slot.operands ∅ address).value) := by
  intro address word
  obtain ⟨i, line, slot, op, hline, hbefore, hslot, hop, hencode, hword⟩ := exists_encoded herrors hk
  obtain ⟨v, hv, -, hfits, hdecode, hcarries⟩ := carries_decode_encode hencode
  have hlabels : resolveLabels t = (assemble t).labels := rfl
  refine ⟨slot, op, v, ⟨⟨i, line, hline, hbefore, hslot⟩, hop, hv⟩, hfits, ?_, ?_, ?_, ?_⟩
  · rw [← hdecode, ← hword]
  · rw [← hword] at hcarries
    exact hcarries
  · intro token htoken
    have himmediate := Operands.immediate?_of_values? hv htoken
    rw [Operands.immediate?, hlabels] at himmediate
    refine ⟨?_, ?_⟩
    · intro n hn hnone
      rw [himmediate, hnone, hn]
    · intro target htarget
      rw [himmediate, htarget]
  · intro hnames
    have hempty := encode_empty_of_labels_eq_none hencode fun token htoken => hnames token htoken
    rw [hempty]
    exact hword

/-- An offset that is no label, on a line whose label has the name of another number. -/
theorem immediate_of_written_load :
    let t : Text := "5: lw x1, -8(x2)"
    (assemble t).hasErrors = false ∧ ∃ slot v, Written t 0 slot .lw v ∧ v.immediate? = some (-8) := by
  intro t
  have herrors : (assemble t).hasErrors = false := by decide +kernel
  have hlength : (assemble t).lines.length = 1 := by decide +kernel
  obtain ⟨slot, op, v, hwritten, -, -, -, htokens, -⟩ :=
    immediate_of_written herrors (k := 0) (by rw [hlength]; decide)
  obtain ⟨i, line, hline, -, hslot⟩ := hwritten.line
  have hlines : Text.lines t = [("5: lw x1, -8(x2)" : Text)] := by decide +kernel
  rw [hlines, List.getElem?_singleton] at hline
  split_ifs at hline with hi
  obtain rfl := Option.some.inj hline
  subst hi
  have hread : Line.slot? 1 0 "5: lw x1, -8(x2)" =
      some ⟨1, 0, "lw x1, -8(x2)", "lw", some .lw, ["x1", "-8(x2)"]⟩ := by decide +kernel
  obtain rfl := Option.some.inj (hread.symm.trans hslot)
  have hlw : Mnemonic.ofName? "lw" = some .lw := by decide +kernel
  obtain rfl := Option.some.inj (hlw.symm.trans hwritten.mnemonic)
  have htoken : immediateToken? Mnemonic.lw.format ["x1", "-8(x2)"] = some ("-8" : Text) := by
    decide +kernel
  have hliteral : Operand.literal? "-8" = some (-8) := by decide +kernel
  have hlabel : (assemble t).labels[("-8" : Text)]? = none := by decide +kernel
  exact ⟨herrors, _, v, hwritten, (htokens "-8" htoken).1 (-8) hliteral hlabel⟩

/-- A source may name a label as a number is written. -/
theorem not_forall_encode_empty :
    ¬ ∀ t : Text, (assemble t).diagnostics = [] →
      ∀ (k : Nat) (slot : Slot) (op : Mnemonic),
        (Source.ofText t).slots.toList[k]? = some slot → slot.mnemonic? = some op →
        (∀ token, immediateToken? op.format slot.operands = some token →
          (Operand.literal? token).isSome) →
        (assemble t).words[k]? = some (encode op slot.operands ∅ slot.address).value := by
  intro h
  have hslots : (Source.ofText "5: addi x1, x0, 5").slots.toList =
      [⟨1, 0, "addi x1, x0, 5", "addi", some .addi, ["x1", "x0", "5"]⟩] := by decide +kernel
  have hdiagnostics : (assemble "5: addi x1, x0, 5").diagnostics = [] := by
    rw [assemble, Source.diagnostics_assemble_eq_nil_iff, hslots, List.forall_mem_singleton]
    decide +kernel
  have hliteral : ∀ token, immediateToken? Mnemonic.addi.format ["x1", "x0", "5"] = some token →
      (Operand.literal? token).isSome := by
    intro token htoken
    obtain rfl := Option.some.inj htoken
    decide
  have hword := h _ hdiagnostics 0 _ .addi (by rw [hslots]; rfl) rfl hliteral
  have hwords : (assemble "5: addi x1, x0, 5").words = [0x00000093] := by decide +kernel
  rw [hwords] at hword
  exact absurd hword (by decide +kernel)

end Programs

end RefHart
