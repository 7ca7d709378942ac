import Mathlib
import RefHart.Proofs.Layout
import RefHart.Proofs.Operands

/-!
# Programs without errors

What encoding notes counts as an error, never as a warning (`serious_encode`). So in a program
without errors every slot has a mnemonic and operands that are encoded without a note
(`exists_mnemonic_of_hasErrors`).
-/

namespace RefHart

namespace Noted

variable {α β : Type}

/-- Everything that is noted counts as an error. -/
def Serious (x : Noted α) : Prop := ∀ e ∈ x.errors, e.severity = .error

theorem serious_pure (a : α) : (pure a : Noted α).Serious := nofun

theorem Serious.bind {x : Noted α} {f : α → Noted β} (hx : x.Serious) (hf : (f x.value).Serious) :
    (x >>= f).Serious := by
  intro e he
  rw [errors_bind, List.mem_append] at he
  rcases he with he | he
  · exact hx e he
  · exact hf e he

theorem serious_of_errors_eq {x : Noted α} {e : AssemblyError} (h : x.errors = [e])
    (he : e.severity = .error) : x.Serious := by
  intro e' he'
  rw [h, List.mem_singleton] at he'
  rw [he', he]

theorem serious_ofOption (a? : Option α) (substitute : α) {e : AssemblyError}
    (he : e.severity = .error) : (ofOption a? substitute e).Serious := by
  cases a? with
  | none => exact serious_of_errors_eq rfl he
  | some a => exact serious_pure a

end Noted

namespace Operands

open Noted

variable (o : Operands) (index : Nat)

theorem serious_read {α : Type} (substitute : α) {reading : Text → Noted α}
    (h : ∀ t, (reading t).Serious) : (o.read index substitute reading).Serious := by
  unfold read token
  cases o.tokens[index]? with
  | none => exact serious_of_errors_eq rfl rfl
  | some t => exact (serious_pure _).bind <| h t

theorem serious_register : (o.register index).Serious :=
  serious_read o index 0 fun _ => serious_ofOption _ _ rfl

theorem serious_csr : (o.csr index).Serious :=
  serious_read o index 0 fun _ => serious_ofOption _ _ rfl

theorem serious_immediateOf (t : Text) : (o.immediateOf t).Serious := by
  refine serious_ofOption _ _ ?_
  unfold immediateError
  split_ifs <;> rfl

theorem serious_immediate : (o.immediate index).Serious :=
  serious_read o index 0 o.serious_immediateOf

theorem serious_memory : (o.memory index).Serious := by
  refine serious_read o index (0, 0) fun t => ?_
  split
  · exact serious_pure _
  · exact (o.serious_immediateOf _).bind <| serious_pure _
  · exact serious_of_errors_eq rfl rfl

theorem serious_expectCount : (o.expectCount index).Serious := by
  unfold expectCount
  split
  · exact serious_of_errors_eq rfl rfl
  · exact serious_pure _

theorem serious_expectRange (v min max : Int) : (expectRange v min max).Serious := by
  unfold expectRange
  split_ifs
  · exact serious_of_errors_eq rfl rfl
  · exact serious_pure _

theorem serious_expectEven (v : Int) : (expectEven v).Serious := by
  unfold expectEven
  split_ifs
  · exact serious_pure _
  · exact serious_of_errors_eq rfl rfl

theorem serious_jumpBase : o.jumpBase.Serious := by
  unfold jumpBase
  split_ifs
  · exact (o.serious_memory 1).bind <| serious_pure _
  · exact (o.serious_register 1).bind <| (o.serious_immediate 2).bind <|
      (o.serious_expectCount 3).bind <| serious_pure _

/-- What is wrong with operands is never a mere warning. -/
theorem serious_encode : o.encode.Serious := by
  cases hformat : o.mnemonic.description.format with simp only [encode, hformat]
  | r =>
    exact (o.serious_register 0).bind <| (o.serious_register 1).bind <|
      (o.serious_register 2).bind <| (o.serious_expectCount 3).bind <| serious_pure _
  | i =>
    exact (o.serious_register 0).bind <| o.serious_jumpBase.bind <|
      (serious_expectRange _ _ _).bind <| serious_pure _
  | iShift =>
    exact (o.serious_register 0).bind <| (o.serious_register 1).bind <|
      (o.serious_immediate 2).bind <| (o.serious_expectCount 3).bind <|
      (serious_expectRange _ _ _).bind <| serious_pure _
  | load | s =>
    exact (o.serious_register 0).bind <| (o.serious_memory 1).bind <|
      (o.serious_expectCount 2).bind <| (serious_expectRange _ _ _).bind <|
      serious_pure _
  | b =>
    exact (o.serious_register 0).bind <| (o.serious_register 1).bind <|
      (o.serious_immediate 2).bind <| (o.serious_expectCount 3).bind <|
      (serious_expectRange _ _ _).bind <| (serious_expectEven _).bind <|
      serious_pure _
  | u =>
    exact (o.serious_register 0).bind <| (o.serious_immediate 1).bind <|
      (o.serious_expectCount 2).bind <| (serious_expectRange _ _ _).bind <|
      serious_pure _
  | j =>
    exact (o.serious_register 0).bind <| (o.serious_immediate 1).bind <|
      (o.serious_expectCount 2).bind <| (serious_expectRange _ _ _).bind <|
      (serious_expectEven _).bind <| serious_pure _
  | csr =>
    exact (o.serious_register 0).bind <| (o.serious_csr 1).bind <|
      (o.serious_register 2).bind <| (o.serious_expectCount 3).bind <| serious_pure _
  | csrImm =>
    exact (o.serious_register 0).bind <| (o.serious_csr 1).bind <|
      (o.serious_immediate 2).bind <| (o.serious_expectCount 3).bind <|
      (serious_expectRange _ _ _).bind <| serious_pure _
  | system => exact (o.serious_expectCount 0).bind <| serious_pure _

end Operands

/-! ## Programs -/

theorem Slot.serious_encode (slot : Slot) (labels : LabelTable) : (slot.encode labels).Serious := by
  unfold Slot.encode
  split
  · exact Operands.serious_encode _
  · exact Noted.serious_of_errors_eq rfl rfl

namespace Source

variable {s : Source} {slot : Slot}

theorem diagnostics_assemble_eq_nil_iff :
    s.assemble.diagnostics = [] ↔
      s.diagnostics.toList = [] ∧ ∀ slot ∈ s.slots.toList, slot.diagnostics s.labels = [] := by
  rw [assemble, ← List.flatMap_eq_nil_iff, ← List.append_eq_nil_iff, ← List.length_eq_zero_iff,
    List.length_mergeSort, List.length_eq_zero_iff]

theorem errors_encode_of_hasErrors (h : s.assemble.hasErrors = false) (hslot : slot ∈ s.slots.toList) :
    (slot.encode s.labels).errors = [] := by
  by_contra hne
  obtain ⟨e, he⟩ := List.exists_mem_of_ne_nil _ hne
  have hdiagnostic : (⟨slot.line, slot.echo, e⟩ : Diagnostic) ∈ s.assemble.errors := by
    refine List.mem_filter.2 ⟨List.mem_mergeSort.2 (List.mem_append_right _ ?_), ?_⟩
    · exact List.mem_flatMap.2 ⟨slot, hslot, List.mem_map_of_mem he⟩
    · exact beq_iff_eq.2 (slot.serious_encode s.labels e he)
  rw [Program.hasErrors, Bool.not_eq_false', List.isEmpty_iff] at h
  rw [h] at hdiagnostic
  contradiction

/-- Without errors, every slot holds an instruction that is encoded without a note. -/
theorem exists_mnemonic_of_hasErrors (h : s.assemble.hasErrors = false)
    (hslot : slot ∈ s.slots.toList) :
    ∃ op, slot.mnemonic? = some op ∧
      (encode op slot.operands s.labels slot.address).errors = [] ∧
      (slot.programLine s.labels).word =
        (encode op slot.operands s.labels slot.address).value := by
  have herrors := errors_encode_of_hasErrors h hslot
  unfold Slot.programLine
  unfold Slot.encode at herrors ⊢
  cases hop : slot.mnemonic? with
  | none =>
    rw [hop] at herrors
    contradiction
  | some op =>
    rw [hop] at herrors
    exact ⟨op, rfl, herrors, rfl⟩

end Source

end RefHart
