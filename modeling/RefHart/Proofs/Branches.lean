import Mathlib
import RefHart.Proofs.Effects
import RefHart.Proofs.OperandTexts
import RefHart.Proofs.Running

/-!
# Branches

**Theorem (`execute_branch`).** An encoded branch jumps by its offset if the two registers stand in the
relation that its mnemonic names, in the order in which they are written, and goes on to the next
instruction otherwise; it changes nothing but the program counter. A pseudo-branch is encoded as its
canonical branch with the first two operands exchanged, whatever the operands are.

Only the operands have to be read and put in order here (`values?_branch`, `encode_branch`). What the
word does is what the operands say as they are written (`effect_decode_encode`).
-/

namespace RefHart

open Instruction

/-! ## Operands of a branch -/

section Operands

variable {op : Mnemonic} {s t u : Text} {a b : Nat} {v : Int} (address : Word)

theorem Operands.values?_branch (hop : op.format = .b) (hs : Register.ofToken? s = some a)
    (ht : Register.ofToken? t = some b) (hu : Operand.literal? u = some v) :
    Operands.values? ⟨op, [s, t, u], ∅, address⟩ = some (.branch a b v) := by
  have hv : Operands.immediate? ⟨op, [s, t, u], ∅, address⟩ u = some v :=
    (immediate?_of_labels_eq_empty rfl u).trans hu
  exact (Operands.Denotes.branch hop rfl hs ht hv).values?_eq

/-- Registers and an even offset in range are encoded without a note. -/
theorem errors_encode_branch (hop : op.format = .b) (hs : Register.ofToken? s = some a)
    (ht : Register.ofToken? t = some b) (hu : Operand.literal? u = some v)
    (hv : -4096 ≤ v ∧ v ≤ 4094 ∧ v % 2 = 0) : (encode op [s, t, u] ∅ address).errors = [] := by
  have hcanonical : op.canonical.format = .b := op.format_canonical.trans hop
  rw [encode, canonicalOperands]
  by_cases hpseudo : op.isPseudo
  · rw [if_pos hpseudo, exchangeFirstTwo,
      Operands.encode_of_values? (Operands.values?_branch address hcanonical ht hs hu) hv]
    rfl
  · rw [if_neg hpseudo,
      Operands.encode_of_values? (Operands.values?_branch address hcanonical hs ht hu) hv]
    rfl

theorem effect_branch (hop : op.format = .b) (hs : Register.ofToken? s = some a)
    (ht : Register.ofToken? t = some b) (hu : Operand.literal? u = some v)
    (hv : -4096 ≤ v ∧ v ≤ 4094 ∧ v % 2 = 0) (h : Hart) :
    h.effect (decode (encode op [s, t, u] ∅ address).value) =
      .jump (if op.relation (h.register a) (h.register b) then h.pc + BitVec.ofInt 32 v
        else h.pc + 4) := by
  obtain ⟨values, hvalues, -, heffect⟩ :=
    effect_decode_encode (errors_encode_branch address hop hs ht hu hv)
  rw [Operands.values?_branch address hop hs ht hu] at hvalues
  obtain rfl := Option.some.inj hvalues
  rw [heffect h, OperandValues.effect]

end Operands

/-! ## Pseudo-branches -/

theorem encode_of_canonical? {op c : Mnemonic} (hc : op.canonical? = some c) (s t : Text)
    (rest : List Text) (labels : LabelTable) (address : Word) :
    encode op (s :: t :: rest) labels address = encode c (t :: s :: rest) labels address := by
  cases op <;> first | contradiction | (obtain rfl := Option.some.inj hc; rfl)

/-! ## Branches on a hart -/

/-- Branches are taken exactly if the relation of their mnemonic holds, and a pseudo-branch is the
canonical one with its registers exchanged. -/
theorem execute_branch (op : Mnemonic) (hop : op.format = .b) :
    (∀ (a b : Nat) (v : Int) (address : Word) (h : Hart) (memory : Memory),
      a < 32 → b < 32 → -4096 ≤ v → v ≤ 4094 → v % 2 = 0 →
      let tokens := [registerText a, registerText b, Numeral.signedDecimal v]
      (encode op tokens ∅ address).errors = [] ∧
      h.execute memory (decode (encode op tokens ∅ address).value) =
        .ok ({ h with pc := if op.relation (h.register a) (h.register b)
          then h.pc + BitVec.ofInt 32 v else h.pc + 4 }, memory)) ∧
    ∀ c, op.canonical? = some c → ∀ (s t : Text) (rest : List Text) (labels : LabelTable)
      (address : Word),
      encode op (s :: t :: rest) labels address = encode c (t :: s :: rest) labels address := by
  refine ⟨?_, fun c hc => encode_of_canonical? hc⟩
  intro a b v address h memory ha hb hmin hmax heven tokens
  have hs := ofToken?_registerText ha
  have ht := ofToken?_registerText hb
  have hu : Operand.literal? (Numeral.signedDecimal v) = some v :=
    Operand.literal?_signedDecimal (by rw [Operand.maxMagnitude]; omega)
  have hv : -4096 ≤ v ∧ v ≤ 4094 ∧ v % 2 = 0 := ⟨hmin, hmax, heven⟩
  have hwidth : op.canonical.accessWidth? = none := by
    cases op <;> first | rfl | contradiction
  refine ⟨errors_encode_branch address hop hs ht hu hv, ?_⟩
  rw [Hart.execute_of_accessWidth? (op_decode_encode op tokens ∅ address) hwidth,
    effect_branch address hop hs ht hu hv]
  rfl

/-- A branch back over the start of the address space: 1 is greater than -1, but less than
`0xFFFFFFFF`. -/
theorem execute_branch_bgt :
    let h := ((Hart.reset {}).setRegister 5 1).setRegister 6 0xFFFFFFFF
    let memory := Memory.zeros 32 .little
    let word := (encode .bgt [registerText 5, registerText 6, Numeral.signedDecimal (-4)] ∅ 0).value
    h.execute memory (decode word) = .ok ({ h with pc := 0xFFFFFFFC }, memory) ∧
      encode .bgt ["x5", "x6", "-4"] ∅ 0 = encode .blt ["x6", "x5", "-4"] ∅ 0 := by
  intro h memory word
  obtain ⟨hexecute, hcanonical⟩ := execute_branch .bgt rfl
  have hjump := (hexecute 5 6 (-4) 0 h memory (by decide) (by decide) (by decide) (by decide)
    (by decide)).2
  refine ⟨hjump.trans ?_, hcanonical .blt rfl "x5" "x6" ["-4"] ∅ 0⟩
  decide

end RefHart
