import Mathlib
import RefHart.Proofs.References

/-!
# Sources one after the other

Two sources with a line feed between them are read as one, the slots and labels of the second moved
behind those of the first.

**Theorem (`assemble_append`).** As long as no slot looks up a label of the other source only, the
words of the two sources stand one after the other unchanged, and so do their errors. The labels of
the second source hide those of the first that have the same name.

A moved slot is encoded as before because only distances matter: label and slot move by the same
number of bytes, and below `2 ^ 32` nothing wraps around. The seam is harmless because reading a
line starts with trimming it, so that neither a carriage return nor an empty last line counts.
-/

namespace RefHart

/-! ## Moving -/

/-- The slot behind that many further lines and slots. -/
def Slot.move (lines slots : Nat) (s : Slot) : Slot :=
  { s with line := lines + s.line, address := BitVec.ofNat 32 (4 * slots) + s.address }

/-- The diagnostic behind that many further lines. -/
def Diagnostic.move (lines : Nat) (d : Diagnostic) : Diagnostic := { d with line := lines + d.line }

theorem Line.slot?_move (lines slots number : Nat) (address : Word) (line : Text) :
    slot? (lines + number) (BitVec.ofNat 32 (4 * slots) + address) line =
      (slot? number address line).map (Slot.move lines slots) := by
  unfold slot?
  cases statement? line with
  | none => rfl
  | some st =>
    cases hc : st.content? with
    | none => simp [hc]
    | some content =>
      simp only [Option.bind_eq_bind, Option.bind_some, hc]
      split_ifs <;> rfl

theorem Line.slotAfter?_append (ls₁ before : List Text) (line : Text) :
    slotAfter? (ls₁ ++ before) line =
      (slotAfter? before line).map (Slot.move ls₁.length (ls₁.countP takesSlot)) := by
  rw [slotAfter?, slotAfter?, ← slot?_move, List.length_append, List.countP_append, Nat.mul_add,
    BitVec.ofNat_add, Nat.add_assoc]

theorem addressOf?_append (ls₁ ls₂ : List Text) (name : Text) :
    addressOf? (ls₁ ++ ls₂) name =
      ((addressOf? ls₂ name).map (BitVec.ofNat 32 (4 * ls₁.countP Line.takesSlot) + ·)).or
        (addressOf? ls₁ name) := by
  induction ls₂ using List.reverseRecOn with
  | nil => rw [List.append_nil]; rfl
  | append_singleton ls₂ line ih =>
    rw [← List.append_assoc, addressOf?_concat, addressOf?_concat, ih]
    split_ifs
    · rw [List.countP_append, Nat.mul_add, BitVec.ofNat_add]
      rfl
    · rfl

namespace Source

variable (ls₁ ls₂ : List Text)

theorem slots_append :
    (ofLines (ls₁ ++ ls₂)).slots.toList =
      (ofLines ls₁).slots.toList ++
        (ofLines ls₂).slots.toList.map (Slot.move ls₁.length (ls₁.countP Line.takesSlot)) := by
  rw [slots_ofLines_eq, slots_ofLines_eq, slots_ofLines_eq, lineByLine_append, map_lineByLine]
  simp only [Line.slotAfter?_append, Option.toList_map]

theorem labels_append (name : Text) :
    (ofLines (ls₁ ++ ls₂)).labels[name]? =
      ((ofLines ls₂).labels[name]?.map (BitVec.ofNat 32 (4 * ls₁.countP Line.takesSlot) + ·)).or
        (ofLines ls₁).labels[name]? := by
  simp only [labels_ofLines_eq, addressOf?_append]

end Source

/-! ## Encoding in another place -/

theorem toNat_ofNat_four_mul_le {k n : Nat} (h : k ≤ n) :
    (BitVec.ofNat 32 (4 * k)).toNat ≤ 4 * n := by
  rw [BitVec.toNat_ofNat]
  exact (Nat.mod_le _ _).trans (Nat.mul_le_mul_left 4 h)

namespace Source

theorem toNat_label_le {lines : List Text} {name : Text} {target : Word}
    (h : (ofLines lines).labels[name]? = some target) :
    target.toNat ≤ 4 * lines.countP Line.takesSlot := by
  obtain ⟨i, -, rfl⟩ := (labels_ofLines_eq_some_iff lines name target).1 h
  exact toNat_ofNat_four_mul_le (List.take_sublist i lines).countP_le

theorem toNat_address_le {lines : List Text} {slot : Slot}
    (h : slot ∈ (ofLines lines).slots.toList) :
    slot.address.toNat ≤ 4 * lines.countP Line.takesSlot := by
  obtain ⟨k, hk⟩ := List.mem_iff_getElem?.1 h
  have hlt : k < lines.countP Line.takesSlot := by
    rw [← length_slots_ofLines]
    exact (List.getElem?_eq_some_iff.1 hk).1
  rw [(slots_ofLines lines k slot hk).1]
  exact toNat_ofNat_four_mul_le hlt.le

end Source

/-- Addresses of a program of less than `2 ^ 32` bytes are moved without wrapping around. -/
theorem toNat_move {x : Word} {n₁ n₂ : Nat} (hsize : n₁ + n₂ < 2 ^ 30) (hx : x.toNat ≤ 4 * n₂) :
    (BitVec.ofNat 32 (4 * n₁) + x).toNat = 4 * n₁ + x.toNat := by
  rw [BitVec.toNat_add, BitVec.toNat_ofNat, Nat.mod_add_mod, Nat.mod_eq_of_lt]
  omega

section Pair

variable {ls₁ ls₂ : List Text} {slot : Slot}

/-- A slot of the first source does not notice the second one. -/
theorem Slot.encode_append_left
    (h : ∀ name ∈ (Source.ofLines ls₁).references, name ∉ (Source.ofLines ls₂).labels)
    (hslot : slot ∈ (Source.ofLines ls₁).slots.toList) :
    slot.encode (Source.ofLines (ls₁ ++ ls₂)).labels = slot.encode (Source.ofLines ls₁).labels := by
  refine Slot.encode_congr fun t ht => ?_
  have hnone : (Source.ofLines ls₂).labels[t]? = none :=
    Std.TreeMap.getElem?_eq_none (h t (List.mem_filterMap.2 ⟨slot, hslot, ht⟩))
  rw [distance?, Source.labels_append, hnone]
  rfl

/-- A slot of the second source is moved together with the labels that it looks up. -/
theorem Slot.encode_append_right
    (hsize : ls₁.countP Line.takesSlot + ls₂.countP Line.takesSlot < 2 ^ 30)
    (h : ∀ name ∈ (Source.ofLines ls₂).references,
      name ∈ (Source.ofLines ls₁).labels → name ∈ (Source.ofLines ls₂).labels)
    (hslot : slot ∈ (Source.ofLines ls₂).slots.toList) :
    (slot.move ls₁.length (ls₁.countP Line.takesSlot)).encode (Source.ofLines (ls₁ ++ ls₂)).labels =
      slot.encode (Source.ofLines ls₂).labels := by
  refine Slot.encode_congr fun t ht => ?_
  have hmem : t ∈ (Source.ofLines ls₂).references := List.mem_filterMap.2 ⟨slot, hslot, ht⟩
  rw [distance?, distance?, Source.labels_append]
  cases htarget : (Source.ofLines ls₂).labels[t]? with
  | some target =>
    have haddress := toNat_move hsize (Source.toNat_address_le hslot)
    have hlabel := toNat_move hsize (Source.toNat_label_le htarget)
    rw [Option.map_some, Option.some_or, Option.map_some, Option.map_some, haddress, hlabel]
    congr 1
    push_cast
    ring
  | none =>
    have hnot : t ∉ (Source.ofLines ls₁).labels := by
      intro hdefined
      have hdefined' := h t hmem hdefined
      rw [Std.TreeMap.mem_iff_isSome_getElem?, htarget] at hdefined'
      contradiction
    rw [Std.TreeMap.getElem?_eq_none hnot]
    rfl

/-- A label stands where the second source puts it, moved, and else where the first one does. -/
theorem Source.labels_append_eq_some_iff
    (hsize : ls₁.countP Line.takesSlot + ls₂.countP Line.takesSlot < 2 ^ 30) (name : Text)
    (target : Word) :
    (ofLines (ls₁ ++ ls₂)).labels[name]? = some target ↔
      (∃ target₂ : Word, (ofLines ls₂).labels[name]? = some target₂ ∧
        target.toNat = 4 * ls₁.countP Line.takesSlot + target₂.toNat) ∨
      ((ofLines ls₂).labels[name]? = none ∧ (ofLines ls₁).labels[name]? = some target) := by
  rw [labels_append]
  cases htarget : (ofLines ls₂).labels[name]? with
  | none => simp
  | some target₂ =>
    have hmove := toNat_move hsize (toNat_label_le htarget)
    constructor
    · intro h
      obtain rfl := Option.some.inj h
      exact .inl ⟨target₂, rfl, hmove⟩
    · rintro (⟨target', heq, hmoved⟩ | ⟨hnone, -⟩)
      · obtain rfl := Option.some.inj heq
        exact congrArg some (BitVec.eq_of_toNat_eq (hmove.trans hmoved.symm))
      · contradiction

end Pair

/-! ## Words and errors -/

theorem Line.noted_append (ls₁ before : List Text) (line : Text) (e? : Option AssemblyError) :
    noted (ls₁ ++ before) line e? = (noted before line e?).map (Diagnostic.move ls₁.length) := by
  rw [noted, noted, List.map_map, List.length_append]
  rfl

/-- Slots that are encoded alike have the same notes. -/
theorem Slot.diagnostics_move {slot : Slot} {labels labels' : LabelTable} {lines slots : Nat}
    (h : (slot.move lines slots).encode labels' = slot.encode labels) :
    (slot.move lines slots).diagnostics labels' =
      (slot.diagnostics labels).map (Diagnostic.move lines) := by
  rw [diagnostics, diagnostics, h, List.map_map]
  rfl

namespace Source

theorem mem_slots_of_slotAfter? {lines : List Text} {i : Nat} {line : Text} {slot : Slot}
    (hline : lines[i]? = some line) (h : Line.slotAfter? (lines.take i) line = some slot) :
    slot ∈ (ofLines lines).slots.toList := by
  rw [slots_ofLines_eq]
  exact mem_lineByLine_iff.2 ⟨i, line, hline, Option.mem_toList.2 h⟩

theorem words_assemble (s : Source) :
    s.assemble.words = s.slots.toList.map fun slot => (slot.encode s.labels).value := by
  rw [Program.words, assemble, List.map_map]
  rfl

section Append

variable {ls₁ ls₂ : List Text}
  (hleft : ∀ slot ∈ (ofLines ls₁).slots.toList,
    slot.encode (ofLines (ls₁ ++ ls₂)).labels = slot.encode (ofLines ls₁).labels)
  (hright : ∀ slot ∈ (ofLines ls₂).slots.toList,
    (slot.move ls₁.length (ls₁.countP Line.takesSlot)).encode (ofLines (ls₁ ++ ls₂)).labels =
      slot.encode (ofLines ls₂).labels)

include hleft hright

theorem words_append :
    (ofLines (ls₁ ++ ls₂)).assemble.words =
      (ofLines ls₁).assemble.words ++ (ofLines ls₂).assemble.words := by
  rw [words_assemble, words_assemble, words_assemble, slots_append, List.map_append, List.map_map]
  refine congrArg₂ (· ++ ·) ?_ ?_
  · refine List.map_congr_left fun slot hslot => ?_
    rw [hleft slot hslot]
  · refine List.map_congr_left fun slot hslot => ?_
    rw [Function.comp_apply, hright slot hslot]

theorem errors_append :
    (ofLines (ls₁ ++ ls₂)).assemble.errors =
      (ofLines ls₁).assemble.errors ++
        (ofLines ls₂).assemble.errors.map (Diagnostic.move ls₁.length) := by
  rw [errors_assemble_ofLines, errors_assemble_ofLines, errors_assemble_ofLines, lineByLine_append,
    map_lineByLine]
  refine congrArg₂ (· ++ ·) ?_ ?_
  · refine lineByLine_congr fun i line hline => congrArg (_ ++ ·) ?_
    refine List.flatMap_congr fun slot hslot => ?_
    rw [Slot.diagnostics, Slot.diagnostics,
      hleft slot (mem_slots_of_slotAfter? hline (Option.mem_toList.1 hslot))]
  · refine lineByLine_congr fun i line hline => ?_
    rw [List.map_append, Line.flawDiagnostics, Line.noted_append, Line.operandDiagnostics,
      Line.operandDiagnostics, Line.slotAfter?_append, Option.toList_map, List.flatMap_map,
      List.map_flatMap]
    refine congrArg (_ ++ ·) (List.flatMap_congr fun slot hslot => Slot.diagnostics_move ?_)
    exact hright slot (mem_slots_of_slotAfter? hline (Option.mem_toList.1 hslot))

end Append

end Source

/-! ## The seam -/

namespace Source

theorem addLine_congr (s : Source) (number : Nat) {line line' : Text}
    (h : Text.trim line = Text.trim line') :
    s.addLine (line, number) = s.addLine (line', number) := by
  rw [addLine, addLine, h]

theorem ofLines_congr {lines lines' : List Text}
    (h : lines.map Text.trim = lines'.map Text.trim) : ofLines lines = ofLines lines' := by
  induction lines using List.reverseRecOn generalizing lines' with
  | nil => rw [List.map_eq_nil_iff.1 h.symm]
  | append_singleton lines line ih =>
    rcases List.eq_nil_or_concat lines' with rfl | ⟨init, last, rfl⟩
    · simp at h
    · rw [List.concat_eq_append, List.map_append, List.map_append] at h
      obtain ⟨hinit, hlast⟩ := List.append_inj' h rfl
      have hlength : lines.length = init.length := by simpa using congrArg List.length hinit
      rw [List.concat_eq_append, ofLines_concat, ofLines_concat, ih hinit, hlength]
      exact addLine_congr _ _ (List.cons.inj hlast).1

/-- Reading the piece behind the last line feed as a line, too, does not change a source. -/
theorem ofLines_pieces (t : Text) :
    ofLines ((Text.splitOn (· == '\n') t).map Text.dropReturn) = ofText t := by
  rw [ofText_eq_ofLines, Text.lines]
  rcases List.eq_nil_or_concat (Text.splitOn (· == '\n') t) with hnil | ⟨init, last, hpieces⟩
  · rw [hnil]
    rfl
  · rw [hpieces, List.concat_eq_append, List.dropLast_concat, List.getLast?_concat, List.map_append]
    by_cases hlast : last = []
    · subst hlast
      calc ofLines (init.map Text.dropReturn ++ [[]].map Text.dropReturn)
          = (ofLines (init.map Text.dropReturn)).addLine
              ([], (init.map Text.dropReturn).length + 1) := ofLines_concat _ _
        _ = ofLines (init.map Text.dropReturn) := addLine_of_statement?_eq_none _ _ _ rfl
        _ = ofLines (init.map Text.dropReturn ++ []) := by rw [List.append_nil]
    · have hkept : (some last).toList.filter (· != []) = [last] := by simp [hlast]
      rw [hkept]
      apply ofLines_congr
      simp [Text.trim_dropReturn]

theorem length_words_ofLines (lines : List Text) :
    (ofLines lines).assemble.words.length = lines.countP Line.takesSlot := by
  rw [words_assemble, List.length_map, length_slots_ofLines]

end Source

/-! ## Programs -/

/-- Two sources one after the other assemble to the words of both, the second moved to its place, as
long as neither refers to labels that the other one changes. -/
theorem assemble_append (s₁ s₂ : Text)
    (hsize : (assemble s₁).words.length + (assemble s₂).words.length < 2 ^ 30)
    (h₁ : ∀ name ∈ (Source.ofText s₁).references, name ∉ (assemble s₂).labels)
    (h₂ : ∀ name ∈ (Source.ofText s₂).references,
      name ∈ (assemble s₁).labels → name ∈ (assemble s₂).labels) :
    let p := assemble (s₁ ++ '\n' :: s₂)
    p.words = (assemble s₁).words ++ (assemble s₂).words ∧
      (∀ (name : Text) (target : Word), p.labels[name]? = some target ↔
        (∃ target₂ : Word, (assemble s₂).labels[name]? = some target₂ ∧
          target.toNat = 4 * (assemble s₁).words.length + target₂.toNat) ∨
        ((assemble s₂).labels[name]? = none ∧ (assemble s₁).labels[name]? = some target)) ∧
      p.errors = (assemble s₁).errors ++
        (assemble s₂).errors.map (Diagnostic.move (s₁.count '\n' + 1)) := by
  obtain ⟨ls₁, hls₁⟩ : ∃ ls, (Text.splitOn (· == '\n') s₁).map Text.dropReturn = ls := ⟨_, rfl⟩
  have hsource₁ : Source.ofText s₁ = Source.ofLines ls₁ := by rw [← hls₁, Source.ofLines_pieces]
  have hsource : Source.ofText (s₁ ++ '\n' :: s₂) = Source.ofLines (ls₁ ++ Text.lines s₂) := by
    rw [Source.ofText_eq_ofLines, Text.lines_append_newline, hls₁]
  have hlength : ls₁.length = s₁.count '\n' + 1 := by
    rw [← hls₁, List.length_map, Text.length_splitOn, List.count]
  have hn₁ : (assemble s₁).words.length = ls₁.countP Line.takesSlot := by
    rw [assemble, hsource₁, Source.length_words_ofLines]
  have hn₂ : (assemble s₂).words.length = (Text.lines s₂).countP Line.takesSlot :=
    Source.length_words_ofLines _
  rw [hn₁, hn₂] at hsize
  rw [hsource₁] at h₁
  rw [assemble, hsource₁] at h₂
  intro p
  have hp : p = (Source.ofLines (ls₁ ++ Text.lines s₂)).assemble := congrArg Source.assemble hsource
  have hp₁ : assemble s₁ = (Source.ofLines ls₁).assemble := congrArg Source.assemble hsource₁
  rw [hp, hp₁, ← hlength]
  refine ⟨?_, ?_, ?_⟩
  · exact Source.words_append (fun _ => Slot.encode_append_left h₁)
      fun _ => Slot.encode_append_right hsize h₂
  · rw [Source.length_words_ofLines]
    exact Source.labels_append_eq_some_iff hsize
  · exact Source.errors_append (fun _ => Slot.encode_append_left h₁)
      fun _ => Slot.encode_append_right hsize h₂

/-- A label that the second source defines again and refers to. -/
theorem assemble_append_redefined :
    let s₁ : Text := "a:\nb: jal x0, b"
    let s₂ : Text := "a: add x1\njal x0, a"
    let p := assemble (s₁ ++ '\n' :: s₂)
    p.words = [0x0000006F, 0x000000B3, 0xFFDFF06F] ∧ p.labels[("a" : Text)]? = some 4 ∧
      p.errors = (assemble s₁).errors ++ (assemble s₂).errors.map (Diagnostic.move 2) := by
  intro s₁ s₂ p
  have hwords₁ : (assemble s₁).words = [0x0000006F] := by decide +kernel
  have hwords₂ : (assemble s₂).words = [0x000000B3, 0xFFDFF06F] := by decide +kernel
  have hlabel₂ : (assemble s₂).labels[("a" : Text)]? = some 0 := by decide +kernel
  obtain ⟨hwords, hlabels, herrors⟩ := assemble_append s₁ s₂ (by rw [hwords₁, hwords₂]; decide)
    (by decide +kernel) (by decide +kernel)
  refine ⟨?_, ?_, ?_⟩
  · rw [hwords, hwords₁, hwords₂]
    rfl
  · refine (hlabels "a" 4).2 (.inl ⟨0, hlabel₂, ?_⟩)
    rw [hwords₁]
    rfl
  · exact herrors

end RefHart
