import Mathlib
import RefHart.Text.Split

/-!
# Texts put together and taken apart

What the readers of the library make of a text that is given by its pieces: lines with line feeds
between them (`lines_intercalate`) or behind them (`lines_flatMap`), tokens with separators between
them (`tokens_append_cons`), a statement with a comment behind it (`beforeComment_append`), a text
without blanks at its ends (`trim_of_trimmed`) or with some (`trim_surrounded`).
-/

namespace RefHart.Text

/-! ## Lines -/

theorem splitOn_eq_splitOnP (p : Char → Bool) (t : Text) : splitOn p t = t.splitOnP p := by
  induction t with
  | nil => rfl
  | cons c t ih =>
    rw [splitOn] at ih
    rw [List.splitOnP_cons_eq_if_modifyHead, splitOn, List.foldr_cons, ih]
    split_ifs
    · rfl
    · cases hpieces : t.splitOnP p with
      | nil => exact absurd hpieces (List.splitOnP_ne_nil p t)
      | cons piece rest => rfl

theorem not_mem_of_mem_splitOn {p : Char → Bool} {t piece : Text} (h : piece ∈ splitOn p t)
    {c : Char} (hc : p c = true) : c ∉ piece := by
  rw [splitOn_eq_splitOnP] at h
  induction t generalizing piece with
  | nil =>
    rw [List.splitOnP_nil, List.mem_singleton] at h
    rw [h]
    exact List.not_mem_nil
  | cons c' t ih =>
    rw [List.splitOnP_cons_eq_if_modifyHead] at h
    split_ifs at h with hsep
    · rcases List.mem_cons.1 h with rfl | h
      · exact List.not_mem_nil
      · exact ih h
    · obtain ⟨first, rest, hpieces⟩ := List.exists_cons_of_ne_nil (List.splitOnP_ne_nil p t)
      rw [hpieces] at h ih
      rcases List.mem_cons.1 h with rfl | h
      · rw [List.mem_cons, not_or]
        exact ⟨fun heq => hsep (heq ▸ hc), ih List.mem_cons_self⟩
      · exact ih (List.mem_cons_of_mem _ h)

theorem length_splitOn (p : Char → Bool) (t : Text) : (splitOn p t).length = t.countP p + 1 := by
  rw [splitOn_eq_splitOnP]
  induction t with
  | nil => rfl
  | cons c t ih =>
    rw [List.splitOnP_cons_eq_if_modifyHead, List.countP_cons]
    split_ifs
    · rw [List.length_cons, ih]
    · rw [List.length_modifyHead, ih, Nat.add_zero]

theorem mem_of_mem_dropReturn {t : Text} {c : Char} (h : c ∈ dropReturn t) : c ∈ t := by
  rw [dropReturn] at h
  split_ifs at h
  · exact List.mem_of_mem_dropLast h
  · exact h

theorem dropReturn_of_getLast? {t : Text} (h : t.getLast? ≠ some '\r') : dropReturn t = t :=
  if_neg h

theorem dropReturn_of_not_mem {t : Text} (h : '\r' ∉ t) : dropReturn t = t :=
  dropReturn_of_getLast? fun hlast => h (List.mem_of_getLast? hlast)

theorem not_mem_of_mem_lines {t line : Text} (h : line ∈ lines t) : '\n' ∉ line := by
  rw [lines, List.mem_append, List.mem_map] at h
  rcases h with ⟨piece, hpiece, rfl⟩ | h
  · intro hc
    exact not_mem_of_mem_splitOn (List.mem_of_mem_dropLast hpiece) (by decide)
      (mem_of_mem_dropReturn hc)
  · have hlast : (splitOn (· == '\n') t).getLast? = some line :=
      Option.mem_toList.1 (List.mem_of_mem_filter h)
    exact not_mem_of_mem_splitOn (List.mem_of_getLast? hlast) (by decide)

/-- A line feed between two texts ends the lines of the first one. -/
theorem lines_append_newline (a b : Text) :
    lines (a ++ '\n' :: b) = (splitOn (· == '\n') a).map dropReturn ++ lines b := by
  have hpieces : splitOn (· == '\n') (a ++ '\n' :: b) =
      splitOn (· == '\n') a ++ splitOn (· == '\n') b := by
    rw [splitOn_eq_splitOnP, splitOn_eq_splitOnP, splitOn_eq_splitOnP,
      List.splitOnP_append_cons _ _ (by decide)]
  have hne : splitOn (· == '\n') b ≠ [] := by
    rw [splitOn_eq_splitOnP]
    exact List.splitOnP_ne_nil _ _
  rw [lines, hpieces, List.dropLast_append_of_ne_nil hne, List.getLast?_append_of_ne_nil _ hne,
    List.map_append, List.append_assoc, lines]

/-- Lines that each end in a line feed are the lines of the whole. -/
theorem lines_flatMap {ls : List Text} (h : ∀ l ∈ ls, '\n' ∉ l ∧ l.getLast? ≠ some '\r') :
    lines (ls.flatMap (· ++ ['\n'])) = ls := by
  have hpieces : splitOn (· == '\n') (ls.flatMap (· ++ ['\n'])) = ls ++ [[]] := by
    rw [splitOn_eq_splitOnP]
    induction ls with
    | nil => rfl
    | cons l ls ih =>
      have hl : ∀ c ∈ l, (c == '\n') = false := by
        intro c hc
        exact beq_eq_false_iff_ne.2 fun heq => (h l List.mem_cons_self).1 (heq ▸ hc)
      rw [List.flatMap_cons, List.append_assoc, List.singleton_append,
        List.splitOnP_append_cons _ _ (by decide), List.splitOnP_eq_singleton hl,
        ih fun l hl => h l (List.mem_cons_of_mem _ hl), List.singleton_append, List.cons_append]
  have hreturn : ls.map dropReturn = ls :=
    (List.map_congr_left fun l hl => dropReturn_of_getLast? (h l hl).2).trans (List.map_id ls)
  rw [lines, hpieces]
  simp [hreturn]

/-- Lines that are put together with line feeds are the lines of the whole. -/
theorem lines_intercalate {ls : List Text} (h : ∀ l ∈ ls, l ≠ [] ∧ '\n' ∉ l ∧ '\r' ∉ l) :
    lines (['\n'].intercalate ls) = ls := by
  rcases List.eq_nil_or_concat ls with rfl | ⟨init, last, rfl⟩
  · rfl
  · rw [List.concat_eq_append] at h ⊢
    have hpieces : splitOn (· == '\n') (['\n'].intercalate (init ++ [last])) = init ++ [last] := by
      rw [splitOn_eq_splitOnP, ← List.splitOn_eq_splitOnP]
      exact List.splitOn_intercalate '\n' (fun l hl => (h l hl).2.1) (by simp)
    have hreturn : init.map dropReturn = init := by
      refine (List.map_congr_left fun l hl => ?_).trans (List.map_id init)
      exact dropReturn_of_not_mem (h l (List.mem_append_left _ hl)).2.2
    have hlast : last ≠ [] := (h last (by simp)).1
    rw [lines, hpieces]
    simp [hreturn, hlast]

/-! ## Tokens -/

/-- Whether a character ends a token. -/
def isSeparator (c : Char) : Bool := c == ',' || isBlank c

theorem tokens_eq_filter_splitOnP (t : Text) :
    tokens t = (t.splitOnP isSeparator).filter (· != []) := by
  rw [tokens, splitOn_eq_splitOnP]
  rfl

theorem tokens_append_cons (a b : Text) {c : Char} (hc : isSeparator c = true) :
    tokens (a ++ c :: b) = tokens a ++ tokens b := by
  simp only [tokens_eq_filter_splitOnP]
  rw [List.splitOnP_append_cons a b hc, List.filter_append]

theorem tokens_cons (t : Text) {c : Char} (hc : isSeparator c = true) : tokens (c :: t) = tokens t :=
  tokens_append_cons [] t hc

theorem tokens_separators_append {a : Text} (h : ∀ c ∈ a, isSeparator c = true) (b : Text) :
    tokens (a ++ b) = tokens b := by
  induction a with
  | nil => rfl
  | cons c a ih =>
    rw [List.cons_append, tokens_cons _ (h c List.mem_cons_self),
      ih fun c hc => h c (List.mem_cons_of_mem _ hc)]

/-- It does not matter how two parts of a statement are separated. -/
theorem tokens_append_separators_append (a b : Text) {sep : Text} (hne : sep ≠ [])
    (h : ∀ c ∈ sep, isSeparator c = true) : tokens (a ++ sep ++ b) = tokens a ++ tokens b := by
  obtain ⟨c, sep, rfl⟩ := List.exists_cons_of_ne_nil hne
  rw [List.append_assoc, List.cons_append, tokens_append_cons _ _ (h c List.mem_cons_self),
    tokens_separators_append fun c hc => h c (List.mem_cons_of_mem _ hc)]

theorem tokens_of_forall {t : Text} (hne : t ≠ []) (h : ∀ c ∈ t, isSeparator c = false) :
    tokens t = [t] := by
  rw [tokens_eq_filter_splitOnP, List.splitOnP_eq_singleton h]
  simp [hne]

/-! ## Cutting -/

theorem cutAt?_append_cons {c : Char} {a : Text} (h : c ∉ a) (b : Text) :
    cutAt? c (a ++ c :: b) = some (a, b) := by
  have ha : ∀ x ∈ a, (x != c) = true := by
    intro x hx
    exact bne_iff_ne.2 fun heq => h (heq ▸ hx)
  rw [cutAt?, List.dropWhile_append_of_pos ha, List.takeWhile_append_of_pos ha]
  simp

theorem cutAt?_of_not_mem {c : Char} {t : Text} (h : c ∉ t) : cutAt? c t = none := by
  have ht : ∀ x ∈ t, (x != c) = true := by
    intro x hx
    exact bne_iff_ne.2 fun heq => h (heq ▸ hx)
  rw [cutAt?, List.dropWhile_eq_nil_iff.2 ht]

theorem cutAt?_eq_some_iff {c : Char} {t a b : Text} :
    cutAt? c t = some (a, b) ↔ c ∉ a ∧ t = a ++ c :: b := by
  constructor
  · intro h
    unfold cutAt? at h
    split at h
    · contradiction
    · rename_i c' rest hdrop
      obtain ⟨rfl, rfl⟩ := Prod.mk.inj (Option.some.inj h)
      have hc' := List.head?_dropWhile_not (· != c) t
      rw [hdrop] at hc'
      obtain rfl : c' = c := by simpa using hc'
      refine ⟨fun hmem => by simpa using List.mem_takeWhile_imp hmem, ?_⟩
      rw [← hdrop, List.takeWhile_append_dropWhile]
  · rintro ⟨ha, rfl⟩
    exact cutAt?_append_cons ha b

theorem cutAt?_eq_none_iff {c : Char} {t : Text} : cutAt? c t = none ↔ c ∉ t := by
  refine ⟨?_, cutAt?_of_not_mem⟩
  intro h hmem
  obtain ⟨a, b, rfl, ha⟩ := List.eq_append_cons_of_mem hmem
  rw [cutAt?_append_cons ha b] at h
  contradiction

theorem prefix_beforeComment (t : Text) : beforeComment t <+: t := by
  fun_induction beforeComment t with
  | case1 => exact List.nil_prefix
  | case2 c rest _ ih => exact List.cons_prefix_cons.2 ⟨rfl, ih⟩
  | case3 => exact List.nil_prefix

theorem beforeComment_append {a : Text} (h : '/' ∉ a) (b : Text) :
    beforeComment (a ++ b) = a ++ beforeComment b := by
  induction a with
  | nil => rfl
  | cons c a ih =>
    rw [List.mem_cons, not_or] at h
    obtain ⟨hc, ha⟩ := h
    rw [List.cons_append, beforeComment, ih ha, List.cons_append]
    intro _ heq
    exact absurd heq.symm hc

/-- A text without a comment stays in front of what follows, unless a comment starts at the seam. -/
theorem beforeComment_append_of_not_infix {a b : Text} (h : ¬ ("//" : Text) <:+: a)
    (hb : ∀ c ∈ b.head?, c ≠ '/') : beforeComment (a ++ b) = a ++ beforeComment b := by
  induction a with
  | nil => rfl
  | cons c a ih =>
    rw [List.infix_cons_iff, not_or] at h
    rw [List.cons_append, beforeComment, ih h.2, List.cons_append]
    intro rest hc hrest
    cases a with
    | nil => exact hb '/' (by rw [List.nil_append] at hrest; rw [hrest]; rfl) rfl
    | cons c' a =>
      obtain ⟨rfl, -⟩ := List.cons.inj hrest
      exact h.1 ⟨a, by rw [hc]; rfl⟩

/-- What follows a comment is part of it. -/
theorem beforeComment_append_of_infix {a : Text} (h : ("//" : Text) <:+: a) (b : Text) :
    beforeComment (a ++ b) = beforeComment a := by
  fun_induction beforeComment a with
  | case1 => rfl
  | case2 c rest hno ih =>
    have hrest : ("//" : Text) <:+: rest := by
      obtain ⟨after, hprefix⟩ | hrest := List.infix_cons_iff.1 h
      · obtain ⟨hc, hafter⟩ := List.cons.inj hprefix
        exact absurd hafter.symm (hno after hc.symm)
      · exact hrest
    rw [List.cons_append, beforeComment, ih hrest]
    intro rest' hc hrest'
    cases rest with
    | nil => exact absurd (List.infix_nil.1 hrest) (by decide)
    | cons c' rest =>
      obtain ⟨rfl, -⟩ := List.cons.inj hrest'
      exact hno rest hc rfl
  | case3 => exact absurd (List.infix_nil.1 h) (by decide)

/-! ## Trimming -/

/-- No blank stands at either end. -/
def Trimmed (t : Text) : Prop :=
  (∀ c ∈ t.head?, isBlank c = false) ∧ ∀ c ∈ t.getLast?, isBlank c = false

theorem trimmed_of_forall {t : Text} (h : ∀ c ∈ t, isBlank c = false) : Trimmed t :=
  ⟨fun c hc => h c (List.mem_of_head? hc), fun c hc => h c (List.mem_of_getLast? hc)⟩

/-- What stands between two trimmed texts does not matter. -/
theorem Trimmed.append {a b : Text} (ha : Trimmed a) (hb : Trimmed b) (hane : a ≠ []) (hbne : b ≠ [])
    (between : Text) : Trimmed (a ++ between ++ b) := by
  refine ⟨?_, ?_⟩
  · rw [List.append_assoc, List.head?_append_of_ne_nil _ hane]
    exact ha.1
  · rw [List.getLast?_append_of_ne_nil _ hbne]
    exact hb.2

theorem dropWhile_of_head? {p : Char → Bool} {t : Text} (h : ∀ c ∈ t.head?, p c = false) :
    t.dropWhile p = t := by
  cases t with
  | nil => rfl
  | cons c t => rw [List.dropWhile_cons, h c rfl]; rfl

theorem trim_eq_rdropWhile (t : Text) : trim t = (t.dropWhile isBlank).rdropWhile isBlank := rfl

/-- What trimming removes is blank. -/
theorem exists_eq_append_trim (t : Text) :
    ∃ before after, (∀ c ∈ before, isBlank c = true) ∧ (∀ c ∈ after, isBlank c = true) ∧
      t = before ++ trim t ++ after := by
  refine ⟨t.takeWhile isBlank, (t.dropWhile isBlank).rtakeWhile isBlank, ?_, ?_, ?_⟩
  · exact fun c hc => List.mem_takeWhile_imp hc
  · exact fun c hc => List.mem_rtakeWhile_imp hc
  · rw [trim_eq_rdropWhile, List.append_assoc, List.rdropWhile_append_rtakeWhile,
      List.takeWhile_append_dropWhile]

theorem mem_of_mem_trim {t : Text} {c : Char} (h : c ∈ trim t) : c ∈ t := by
  obtain ⟨before, after, -, -, ht⟩ := exists_eq_append_trim t
  rw [ht]
  exact List.mem_append_left _ (List.mem_append_right _ h)

theorem trimmed_trim (t : Text) : Trimmed (trim t) := by
  refine ⟨?_, ?_⟩
  · intro c hc
    have hsplit : trim t ++ (t.dropWhile isBlank).rtakeWhile isBlank = t.dropWhile isBlank :=
      List.rdropWhile_append_rtakeWhile
    have hhead : (t.dropWhile isBlank).head? = some c := by
      rw [← hsplit, List.head?_append, Option.mem_def.1 hc, Option.some_or]
    have hnot := List.head?_dropWhile_not isBlank t
    rw [hhead] at hnot
    exact hnot
  · intro c hc
    have hne : trim t ≠ [] := List.ne_nil_of_mem (List.mem_of_getLast? hc)
    rw [List.getLast?_eq_some_getLast hne] at hc
    rw [← Option.some.inj hc]
    exact Bool.eq_false_of_not_eq_true (List.rdropWhile_last_not _ _ hne)

/-- Blanks around a text are trimmed away. -/
theorem trim_surrounded {before after : Text} (hbefore : ∀ c ∈ before, isBlank c = true)
    (hafter : ∀ c ∈ after, isBlank c = true) (t : Text) : trim (before ++ t ++ after) = trim t := by
  have hdrop : (t ++ after).dropWhile isBlank = [] ∧ t.dropWhile isBlank = [] ∨
      (t ++ after).dropWhile isBlank = t.dropWhile isBlank ++ after := by
    rw [List.dropWhile_append]
    split_ifs with hempty
    · exact .inl ⟨List.dropWhile_eq_nil_iff.2 hafter, List.isEmpty_iff.1 hempty⟩
    · exact .inr rfl
  rw [trim_eq_rdropWhile, trim_eq_rdropWhile, List.append_assoc,
    List.dropWhile_append_of_pos hbefore]
  rcases hdrop with ⟨hall, ht⟩ | hall
  · rw [hall, ht]
  · rw [hall, List.rdropWhile, List.rdropWhile, List.reverse_append, List.dropWhile_append_of_pos]
    exact fun c hc => hafter c (List.mem_reverse.1 hc)

theorem trim_blanks_append {before : Text} (h : ∀ c ∈ before, isBlank c = true) (t : Text) :
    trim (before ++ t) = trim t := by
  have hsame := trim_surrounded h (List.forall_mem_nil fun c => isBlank c = true) t
  rwa [List.append_nil] at hsame

theorem trim_append_blanks {after : Text} (h : ∀ c ∈ after, isBlank c = true) (t : Text) :
    trim (t ++ after) = trim t :=
  trim_surrounded (List.forall_mem_nil fun c => isBlank c = true) h t

theorem trim_dropReturn (t : Text) : trim (dropReturn t) = trim t := by
  rw [dropReturn]
  split_ifs with hlast
  · have hreturn : ∀ c ∈ ['\r'], isBlank c = true := by
      rw [List.forall_mem_singleton]
      decide
    conv_rhs => rw [← List.dropLast_append_getLast? '\r' hlast]
    exact (trim_append_blanks hreturn _).symm
  · rfl

theorem trim_of_trimmed {t : Text} (h : Trimmed t) : trim t = t := by
  have hlast : ∀ c ∈ t.reverse.head?, isBlank c = false := by
    rw [List.head?_reverse]
    exact h.2
  rw [trim, dropWhile_of_head? h.1, dropWhile_of_head? hlast, List.reverse_reverse]

/-- A trimmed text stays in front of what is left behind it. -/
theorem exists_trim_append {a : Text} (ha : Trimmed a) (hne : a ≠ []) (b : Text) :
    ∃ b', trim (a ++ b) = a ++ b' := by
  obtain ⟨before, after, hbefore, hafter, hb⟩ := exists_eq_append_trim b
  by_cases hnil : trim b = []
  · refine ⟨[], ?_⟩
    have hblank : ∀ c ∈ b, isBlank c = true := by
      rw [hb, hnil]
      simpa [or_imp, forall_and] using ⟨hbefore, hafter⟩
    rw [List.append_nil]
    exact (trim_append_blanks hblank a).trans (trim_of_trimmed ha)
  · refine ⟨before ++ trim b, ?_⟩
    have htrimmed := ha.append (trimmed_trim b) hne hnil before
    calc trim (a ++ b)
        = trim (a ++ before ++ trim b ++ after) := by
          rw [List.append_assoc, List.append_assoc, ← List.append_assoc before, ← hb]
      _ = a ++ (before ++ trim b) := by
          rw [trim_append_blanks hafter, trim_of_trimmed htrimmed, List.append_assoc]

/-! ## Blanks around a line -/

theorem not_mem_blanks {blanks : Text} {c : Char} (hc : isBlank c = false)
    (h : ∀ c ∈ blanks, isBlank c = true) : c ∉ blanks := by
  intro hmem
  rw [h c hmem] at hc
  contradiction

theorem mem_trim_iff {c : Char} (hc : isBlank c = false) (t : Text) : c ∈ trim t ↔ c ∈ t := by
  obtain ⟨before, after, hbefore, hafter, ht⟩ := exists_eq_append_trim t
  refine ⟨mem_of_mem_trim, fun hmem => ?_⟩
  rw [ht, List.mem_append, List.mem_append] at hmem
  obtain (hmem | hmem) | hmem := hmem
  · exact absurd hmem (not_mem_blanks hc hbefore)
  · exact hmem
  · exact absurd hmem (not_mem_blanks hc hafter)

/-- A text is cut where the trimmed text is cut. -/
theorem exists_cutAt?_eq_map {c : Char} (hc : isBlank c = false) (t : Text) :
    ∃ before after, (∀ c ∈ before, isBlank c = true) ∧ (∀ c ∈ after, isBlank c = true) ∧
      cutAt? c t = (cutAt? c (trim t)).map fun parts => (before ++ parts.1, parts.2 ++ after) := by
  obtain ⟨before, after, hbefore, hafter, ht⟩ := exists_eq_append_trim t
  refine ⟨before, after, hbefore, hafter, ?_⟩
  cases hcut : cutAt? c (trim t) with
  | none =>
    have hmem : c ∉ t := fun hmem => cutAt?_eq_none_iff.1 hcut ((mem_trim_iff hc t).2 hmem)
    rw [cutAt?_of_not_mem hmem, Option.map_none]
  | some parts =>
    obtain ⟨a, b⟩ := parts
    obtain ⟨ha, htrim⟩ := cutAt?_eq_some_iff.1 hcut
    have hleft : c ∉ before ++ a := by
      rw [List.mem_append, not_or]
      exact ⟨not_mem_blanks hc hbefore, ha⟩
    have hsplit : t = (before ++ a) ++ c :: (b ++ after) := by
      rw [htrim] at ht
      rw [ht]
      simp
    rw [Option.map_some, cutAt?_eq_some_iff.2 ⟨hleft, hsplit⟩]

/-- The first cut of a text, but for blanks around the text. -/
theorem map_trim_cutAt?_trim {c : Char} (hc : isBlank c = false) (t : Text) :
    (cutAt? c (trim t)).map (fun parts => trim parts.1) =
      (cutAt? c t).map fun parts => trim parts.1 := by
  obtain ⟨before, after, hbefore, -, hcut⟩ := exists_cutAt?_eq_map hc t
  rw [hcut, Option.map_map]
  exact Option.map_congr fun parts _ => (trim_blanks_append hbefore parts.1).symm

theorem beforeComment_append_blanks (t : Text) {after : Text} (h : ∀ c ∈ after, isBlank c = true) :
    ∃ after', (∀ c ∈ after', isBlank c = true) ∧
      beforeComment (t ++ after) = beforeComment t ++ after' := by
  have hslash : isBlank '/' = false := by decide
  fun_induction beforeComment t with
  | case1 => exact ⟨[], List.forall_mem_nil _, rfl⟩
  | case2 c rest hno ih =>
    obtain ⟨after', hafter', heq⟩ := ih
    refine ⟨after', hafter', ?_⟩
    rw [List.cons_append, beforeComment, heq, List.cons_append]
    -- A comment that starts at the seam would start with a blank.
    intro rest' hc hrest
    cases rest with
    | nil => rw [h '/' (by rw [List.nil_append] at hrest; simp [hrest])] at hslash; contradiction
    | cons c' rest =>
      obtain ⟨rfl, -⟩ := List.cons.inj hrest
      exact hno rest hc rfl
  | case3 => exact ⟨beforeComment after, fun c hc => h c ((prefix_beforeComment after).mem hc), rfl⟩

/-- A comment is cut off alike before and after trimming. -/
theorem trim_beforeComment_trim (t : Text) :
    trim (beforeComment (trim t)) = trim (beforeComment t) := by
  obtain ⟨before, after, hbefore, hafter, ht⟩ := exists_eq_append_trim t
  obtain ⟨after', hafter', hcode⟩ := beforeComment_append_blanks (trim t) hafter
  have hslash : '/' ∉ before := by
    intro hmem
    have hblank := hbefore '/' hmem
    exact absurd hblank (by decide)
  calc trim (beforeComment (trim t))
      = trim (before ++ beforeComment (trim t) ++ after') :=
        (trim_surrounded hbefore hafter' _).symm
    _ = trim (beforeComment (before ++ (trim t ++ after))) := by
      rw [beforeComment_append hslash, hcode, List.append_assoc]
    _ = trim (beforeComment t) := by rw [← List.append_assoc, ← ht]

theorem tokens_of_blanks {t : Text} (h : ∀ c ∈ t, isBlank c = true) : tokens t = [] := by
  induction t with
  | nil => rfl
  | cons c t ih =>
    have hc : isSeparator c = true := by rw [isSeparator, h c List.mem_cons_self, Bool.or_true]
    rw [tokens_cons t hc, ih fun c hc => h c (List.mem_cons_of_mem _ hc)]

theorem tokens_surrounded {before after : Text} (hbefore : ∀ c ∈ before, isBlank c = true)
    (hafter : ∀ c ∈ after, isBlank c = true) (t : Text) :
    tokens (before ++ t ++ after) = tokens t := by
  have hsep {c : Char} (hc : isBlank c = true) : isSeparator c = true := by
    rw [isSeparator, hc, Bool.or_true]
  induction before with
  | nil =>
    cases after with
    | nil => simp
    | cons c after =>
      rw [List.nil_append, tokens_append_cons _ _ (hsep (hafter c List.mem_cons_self)),
        tokens_of_blanks fun c hc => hafter c (List.mem_cons_of_mem _ hc), List.append_nil]
  | cons c before ih =>
    rw [List.cons_append, List.cons_append, tokens_cons _ (hsep (hbefore c List.mem_cons_self)),
      ih fun c hc => hbefore c (List.mem_cons_of_mem _ hc)]

theorem tokens_trim (t : Text) : tokens (trim t) = tokens t := by
  obtain ⟨before, after, hbefore, hafter, ht⟩ := exists_eq_append_trim t
  conv_rhs => rw [ht]
  exact (tokens_surrounded hbefore hafter _).symm

/-! ## Lengths -/

theorem utf8Length_eq_length {t : Text} (h : ∀ c ∈ t, c.utf8Size = 1) :
    t.utf8Length = t.length := by
  have hfold (n : Nat) : t.foldl (fun n c => n + c.utf8Size) n = n + t.length := by
    induction t generalizing n with
    | nil => rfl
    | cons c t ih =>
      rw [List.foldl_cons, h c List.mem_cons_self, ih fun c hc => h c (List.mem_cons_of_mem _ hc),
        List.length_cons, Nat.add_assoc, Nat.add_comm 1]
  rw [utf8Length, hfold, Nat.zero_add]

end RefHart.Text
