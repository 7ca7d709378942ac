import Mathlib
import RefHart.Text.Basic

/-!
# Rows put together line by line

A row to which every line of a text adds something in view of the lines before it (`lineByLine`).
Going one line further (`lineByLine_concat`) and going on with another text (`lineByLine_append`)
only touch the end of the row.

**Theorem (`mergeSort_lineByLine`).** Two rows whose entries carry the numbers of their lines take
turns line by line once they are sorted together by these numbers.

As the sort is stable, it leaves one class of equal numbers after the other, each in the order that
it had (`mergeSort_eq_flatMap_filter`), and a class holds what a single line adds.
-/

namespace RefHart

/-! ## Rows put together line by line -/

section Rows

variable {α β : Type}

/-- What the lines add to a row one after the other, each in view of the lines before it. -/
def lineByLine (f : List Text → Text → List α) (lines : List Text) : List α :=
  lines.zipIdx.flatMap fun numbered => f (lines.take numbered.2) numbered.1

theorem lineByLine_concat (f : List Text → Text → List α) (lines : List Text) (line : Text) :
    lineByLine f (lines ++ [line]) = lineByLine f lines ++ f lines line := by
  rw [lineByLine, List.zipIdx_append, List.flatMap_append]
  congr 1
  · refine List.flatMap_congr fun numbered hmem => ?_
    have hlt : numbered.2 < lines.length := by simpa using List.snd_lt_of_mem_zipIdx hmem
    rw [List.take_append_of_le_length hlt.le]
  · simp

/-- A second text goes on in view of the whole first one. -/
theorem lineByLine_append (f : List Text → Text → List α) (ls₁ ls₂ : List Text) :
    lineByLine f (ls₁ ++ ls₂) =
      lineByLine f ls₁ ++ lineByLine (fun before line => f (ls₁ ++ before) line) ls₂ := by
  induction ls₂ using List.reverseRecOn with
  | nil => simp [lineByLine]
  | append_singleton ls₂ line ih =>
    rw [← List.append_assoc, lineByLine_concat, ih, lineByLine_concat, List.append_assoc]

theorem lineByLine_congr {f g : List Text → Text → List α} {lines : List Text}
    (h : ∀ i line, lines[i]? = some line → f (lines.take i) line = g (lines.take i) line) :
    lineByLine f lines = lineByLine g lines :=
  List.flatMap_congr fun _ hmem => h _ _ (List.mem_zipIdx_iff_getElem?.1 hmem)

theorem mem_lineByLine_iff {f : List Text → Text → List α} {lines : List Text} {a : α} :
    a ∈ lineByLine f lines ↔ ∃ i line, lines[i]? = some line ∧ a ∈ f (lines.take i) line := by
  simp only [lineByLine, List.mem_flatMap, Prod.exists, List.mem_zipIdx_iff_getElem?]
  exact exists_comm

theorem map_lineByLine (f : List Text → Text → List α) (g : α → β) (lines : List Text) :
    (lineByLine f lines).map g = lineByLine (fun before line => (f before line).map g) lines :=
  List.map_flatMap

theorem flatMap_lineByLine (f : List Text → Text → List α) (g : α → List β) (lines : List Text) :
    (lineByLine f lines).flatMap g =
      lineByLine (fun before line => (f before line).flatMap g) lines :=
  List.flatMap_assoc

theorem filter_lineByLine (f : List Text → Text → List α) (p : α → Bool) (lines : List Text) :
    (lineByLine f lines).filter p =
      lineByLine (fun before line => (f before line).filter p) lines :=
  List.filter_flatMap

end Rows

/-! ## Sorting by line numbers -/

section Sorting

variable {α : Type} {key : α → Nat}

theorem filter_mergeSort (key : α → Nat) (l : List α) (k : Nat) :
    (l.mergeSort fun a b => key a ≤ key b).filter (key · = k) = l.filter (key · = k) := by
  have hclass : (l.filter (key · = k)).Pairwise fun a b => decide (key a ≤ key b) = true := by
    refine List.pairwise_of_forall_mem_list fun a ha b hb => ?_
    have hka : key a = k := of_decide_eq_true (List.mem_filter.1 ha).2
    have hkb : key b = k := of_decide_eq_true (List.mem_filter.1 hb).2
    exact decide_eq_true (hka.trans hkb.symm).le
  have hsub : (l.filter (key · = k)).Sublist (l.mergeSort fun a b => key a ≤ key b) :=
    List.sublist_mergeSort (by simpa using fun a b c => le_trans)
      (by simpa using fun a b => le_total (key a) (key b)) hclass List.filter_sublist
  have hsub' := hsub.filter (key · = k)
  rw [List.filter_filter] at hsub'
  simp only [Bool.and_self] at hsub'
  exact (hsub'.eq_of_length
    ((List.mergeSort_perm l _).filter (key · = k)).length_eq.symm).symm

theorem filter_lt_succ {l : List α} (hsorted : l.Pairwise fun a b => key a ≤ key b) (n : Nat) :
    l.filter (key · < n + 1) = l.filter (key · < n) ++ l.filter (key · = n) := by
  induction l with
  | nil => rfl
  | cons a l ih =>
    obtain ⟨ha, hl⟩ := List.pairwise_cons.1 hsorted
    by_cases hlt : key a < n
    · have hlt' : key a < n + 1 := Nat.lt_succ_of_lt hlt
      simp only [List.filter_cons, hlt, hlt', hlt.ne, decide_true, decide_false, if_true,
        Bool.false_eq_true, if_false, List.cons_append, ih hl]
    · -- From here on no key is below `n`.
      have hbelow : (a :: l).filter (key · < n) = [] := by
        rw [List.filter_eq_nil_iff]
        intro b hb
        have hab : key a ≤ key b := (List.mem_cons.1 hb).elim (fun h => h ▸ le_rfl) (ha b)
        simpa using (not_lt.1 hlt).trans hab
      rw [hbelow, List.nil_append]
      refine List.filter_congr fun b hb => decide_eq_decide.2 ?_
      have hnot : ¬ key b < n := by simpa using List.filter_eq_nil_iff.1 hbelow b hb
      omega

/-- Sorting puts the classes of equal keys one after the other and leaves each as it is. -/
theorem mergeSort_eq_flatMap_filter {l : List α} {n : Nat} (h : ∀ a ∈ l, key a < n) :
    (l.mergeSort fun a b => key a ≤ key b) =
      (List.range n).flatMap fun k => l.filter (key · = k) := by
  have hsorted : (l.mergeSort fun a b => key a ≤ key b).Pairwise fun a b => key a ≤ key b := by
    have hdecide : (l.mergeSort fun a b => key a ≤ key b).Pairwise
        fun a b => decide (key a ≤ key b) = true :=
      List.pairwise_mergeSort (by simpa using fun a b c => le_trans)
        (by simpa using fun a b => le_total (key a) (key b)) l
    simpa using hdecide
  have hclasses : (l.mergeSort fun a b => key a ≤ key b).filter (key · < n) =
      (List.range n).flatMap fun k => l.filter (key · = k) := by
    clear h
    induction n with
    | zero => simp
    | succ n ih =>
      rw [filter_lt_succ hsorted, ih, filter_mergeSort, List.range_succ, List.flatMap_append,
        List.flatMap_singleton]
  rw [← hclasses, List.filter_eq_self.2]
  exact fun a ha => decide_eq_true (h a (List.mem_mergeSort.1 ha))

/-- Every line numbers what it adds with its own number. -/
def Numbered (key : α → Nat) (f : List Text → Text → List α) : Prop :=
  ∀ before line, ∀ a ∈ f before line, key a = before.length + 1

theorem Numbered.lt_of_mem {f : List Text → Text → List α} (hf : Numbered key f) {lines : List Text}
    {a : α} (ha : a ∈ lineByLine f lines) : key a < lines.length + 1 := by
  obtain ⟨i, line, hline, ha⟩ := mem_lineByLine_iff.1 ha
  have hi : i < lines.length := (List.getElem?_eq_some_iff.1 hline).1
  rw [hf _ _ a ha, List.length_take_of_le hi.le]
  exact Nat.succ_lt_succ hi

theorem Numbered.pairwise_lt {f : List Text → Text → List α} (hf : Numbered key f)
    (hline : ∀ before line, (f before line).Pairwise fun a b => key a < key b) (lines : List Text) :
    (lineByLine f lines).Pairwise fun a b => key a < key b := by
  induction lines using List.reverseRecOn with
  | nil => exact List.Pairwise.nil
  | append_singleton lines line ih =>
    rw [lineByLine_concat, List.pairwise_append]
    refine ⟨ih, hline lines line, ?_⟩
    intro a ha b hb
    rw [hf lines line b hb]
    exact hf.lt_of_mem ha

/-- The last line settles its own class and no other. -/
theorem Numbered.filter_lineByLine_concat {f : List Text → Text → List α} (hf : Numbered key f)
    (lines : List Text) (line : Text) (k : Nat) :
    (lineByLine f (lines ++ [line])).filter (key · = k) =
      if k = lines.length + 1 then f lines line else (lineByLine f lines).filter (key · = k) := by
  rw [lineByLine_concat, List.filter_append]
  split_ifs with hk
  · subst hk
    rw [List.filter_eq_nil_iff.2, List.filter_eq_self.2, List.nil_append]
    · exact fun a ha => decide_eq_true (hf lines line a ha)
    · intro a ha
      simpa using (hf.lt_of_mem ha).ne
  · rw [List.filter_eq_nil_iff (l := f lines line).2, List.append_nil]
    intro a ha
    rw [hf lines line a ha]
    simpa using Ne.symm hk

/-- Two rows of numbered entries, sorted together, take turns line by line. -/
theorem mergeSort_lineByLine {f g : List Text → Text → List α} (hf : Numbered key f)
    (hg : Numbered key g) (lines : List Text) :
    ((lineByLine f lines ++ lineByLine g lines).mergeSort fun a b => key a ≤ key b) =
      lineByLine (fun before line => f before line ++ g before line) lines := by
  have hbound : ∀ a ∈ lineByLine f lines ++ lineByLine g lines, key a < lines.length + 1 :=
    fun a ha => (List.mem_append.1 ha).elim hf.lt_of_mem hg.lt_of_mem
  rw [mergeSort_eq_flatMap_filter hbound]
  clear hbound
  induction lines using List.reverseRecOn with
  | nil => rfl
  | append_singleton lines line ih =>
    have hlast : (lines ++ [line]).length + 1 = lines.length + 1 + 1 := by simp
    have hold : ((List.range (lines.length + 1)).flatMap fun k =>
          (lineByLine f (lines ++ [line]) ++ lineByLine g (lines ++ [line])).filter (key · = k)) =
        lineByLine (fun before line => f before line ++ g before line) lines := by
      rw [← ih]
      refine List.flatMap_congr fun k hk => ?_
      have hne : k ≠ lines.length + 1 := (List.mem_range.1 hk).ne
      rw [List.filter_append, List.filter_append, hf.filter_lineByLine_concat,
        hg.filter_lineByLine_concat, if_neg hne, if_neg hne]
    rw [hlast, List.range_succ, List.flatMap_append, hold, List.flatMap_singleton,
      List.filter_append, hf.filter_lineByLine_concat, hg.filter_lineByLine_concat, if_pos rfl,
      if_pos rfl, lineByLine_concat]

end Sorting

end RefHart
