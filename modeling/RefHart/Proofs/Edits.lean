import Mathlib
import RefHart.Proofs.Alike
import RefHart.Proofs.OperandTexts

/-!
# Edits of the layout

A source may be laid out in many ways. An edit of a line (`LineEdit`) writes other blanks at its
ends, another separator between two tokens of its body, a comment behind it, or its mnemonic in other
letters. An edit of a source (`Edit`) edits one of its lines or inserts a line: one without a
statement, or one that only defines a new label.

**Theorem (`extends_of_edited`).** After any number of such edits a source assembles to the same
words at the same addresses, with the same problems in the same order. Its labels are those that it
had and those that were inserted.

An edited line is alike the line that it was (`LineEdit.alike`): name and instruction of a line are
read off its code, cut at the first colon (`instruction?_eq`), and no edit touches the tokens behind
the colon but for the letter case of a mnemonic. An inserted line is idle. So every edit relays the
lines of the source.
-/

namespace RefHart

/-! ## The body of a line -/

/-- What follows the first colon of a text; the whole text if it has none. -/
def Text.afterColon (t : Text) : Text := ((cutAt? ':' t).map (·.2)).getD t

namespace Text

theorem afterColon_append_cons {a : Text} (h : ':' ∉ a) (b : Text) :
    afterColon (a ++ ':' :: b) = b := by
  rw [afterColon, cutAt?_append_cons h]
  rfl

theorem afterColon_of_not_mem {t : Text} (h : ':' ∉ t) : afterColon t = t := by
  rw [afterColon, cutAt?_of_not_mem h]
  rfl

/-- The first colon of a text is not moved by what follows it. -/
theorem afterColon_append {a b : Text} (h : ':' ∈ a ∨ ':' ∉ b) :
    afterColon (a ++ b) = afterColon a ++ b := by
  by_cases ha : ':' ∈ a
  · obtain ⟨x, y, rfl, hx⟩ := List.eq_append_cons_of_mem ha
    rw [List.append_assoc, List.cons_append, afterColon_append_cons hx, afterColon_append_cons hx]
  · rw [afterColon_of_not_mem ha, afterColon_of_not_mem]
    rw [List.mem_append, not_or]
    exact ⟨ha, h.resolve_left ha⟩

theorem map_fst_cutAt?_append {a b : Text} (h : ':' ∈ a ∨ ':' ∉ b) :
    (cutAt? ':' (a ++ b)).map (·.1) = (cutAt? ':' a).map (·.1) := by
  by_cases ha : ':' ∈ a
  · obtain ⟨x, y, rfl, hx⟩ := List.eq_append_cons_of_mem ha
    rw [List.append_assoc, List.cons_append, cutAt?_append_cons hx, cutAt?_append_cons hx]
    rfl
  · rw [cutAt?_of_not_mem ha, cutAt?_of_not_mem]
    rw [List.mem_append, not_or]
    exact ⟨ha, h.resolve_left ha⟩

theorem trim_afterColon_trim (t : Text) : trim (afterColon (trim t)) = trim (afterColon t) := by
  obtain ⟨before, after, -, hafter, hcut⟩ := exists_cutAt?_eq_map (by decide : isBlank ':' = false) t
  rw [afterColon, afterColon, hcut]
  cases cutAt? ':' (trim t) with
  | none => exact trim_of_trimmed (trimmed_trim t)
  | some parts => exact (trim_append_blanks hafter parts.2).symm

end Text

namespace Line

/-- The head and the operands in what precedes the comment of a line. -/
def content? (code : Text) : Option (Text × List Text) :=
  match Text.tokens (Text.afterColon code) with
  | head :: operands => some (head, operands)
  | [] =>
    if ':' ∈ code ∧ Text.trim (Text.afterColon code) ≠ [] then
      some (Text.trim (Text.afterColon code), [])
    else none

theorem content?_trim (code : Text) : content? (Text.trim code) = content? code := by
  rw [content?, content?, ← Text.tokens_trim, Text.trim_afterColon_trim, Text.tokens_trim]
  simp only [Text.mem_trim_iff (by decide : Text.isBlank ':' = false)]

theorem bind_content?_statement? (line : Text) :
    (statement? line).bind (·.content?) = content? (Text.beforeComment line) := by
  rw [← content?_trim, statement?_eq]
  split_ifs with hnil
  · rw [hnil]
    rfl
  · rw [content?, Text.afterColon]
    cases hcut : Text.cutAt? ':' (Text.trim (Text.beforeComment line)) with
    | none =>
      have hmem := Text.cutAt?_eq_none_iff.1 hcut
      cases htokens : Text.tokens (Text.trim (Text.beforeComment line)) with
      | nil => simp [Statement.content?, htokens, hmem]
      | cons head operands => simp [Statement.content?, htokens]
    | some parts =>
      obtain ⟨a, b⟩ := parts
      have hmem : ':' ∈ Text.trim (Text.beforeComment line) := by
        rw [(Text.cutAt?_eq_some_iff.1 hcut).2]
        simp
      cases htokens : Text.tokens b with
      | nil => simp [Statement.content?, Text.tokens_trim, htokens, hmem]
      | cons head operands => simp [Statement.content?, Text.tokens_trim, htokens]

theorem instruction?_eq (line : Text) :
    instruction? line = (content? (Text.beforeComment line)).map fun content =>
      (Mnemonic.read content.1, content.2) := by
  rw [instruction?, bind_content?_statement?]

theorem content?_of_tokens {code head : Text} {operands : List Text}
    (h : Text.tokens (Text.afterColon code) = head :: operands) :
    content? code = some (head, operands) := by
  rw [content?, h]

/-- Lines with the same code are alike, whatever their comments and echoes are. -/
theorem alike_of_trim_beforeComment {line line' : Text}
    (h : Text.trim (Text.beforeComment line') = Text.trim (Text.beforeComment line)) :
    Alike line line' := by
  refine ⟨?_, ?_⟩
  · rw [name?_eq, name?_eq, h]
  · rw [instruction?_eq, instruction?_eq, ← content?_trim, h, content?_trim]

end Line

/-! ## Edits of a line -/

/-- One comma or blank or more. -/
def Text.Separates (t : Text) : Prop := t ≠ [] ∧ ∀ c ∈ t, isSeparator c = true

/-- The seam between two parts of a line is in its body: in no comment, and behind the colon if
there is one. -/
structure InBody (left right : Text) : Prop where
  not_infix : ¬ ("//" : Text) <:+: left
  colon : ':' ∈ left ∨ ':' ∉ Text.beforeComment right

/-- A line in another layout. -/
inductive LineEdit : Text → Text → Prop
  /-- Other blanks at the ends. -/
  | blanks {before after before' after' : Text} (line : Text)
      (h : ∀ c ∈ before ++ after, Text.isBlank c = true)
      (h' : ∀ c ∈ before' ++ after', Text.isBlank c = true) :
      LineEdit (before ++ line ++ after) (before' ++ line ++ after')
  /-- Another separator behind a token of the body. -/
  | separator {left sep sep' right : Text} (hbody : InBody left (sep ++ right))
      (hleft : Text.tokens (Text.afterColon left) ≠ []) (hsep : sep.Separates)
      (hsep' : sep'.Separates) : LineEdit (left ++ sep ++ right) (left ++ sep' ++ right)
  /-- A comment behind the line. -/
  | comment (line remark : Text) : LineEdit line (line ++ " //" ++ remark)
  /-- Other ASCII letters for the mnemonic with which the body starts. -/
  | letterCase {left head head' right : Text} (hbody : InBody left (head ++ right))
      (hfirst : ∀ c ∈ Text.afterColon left, Text.isSeparator c = true)
      (hlast : ∀ c ∈ (Text.beforeComment right).head?, Text.isSeparator c = true)
      (hhead : (Mnemonic.ofName? head).isSome) (hcase : head'.toLower = head.toLower) :
      LineEdit (left ++ head ++ right) (left ++ head' ++ right)

namespace InBody

variable {left mid mid' right : Text}

section

variable (h : InBody left (mid ++ right)) (hne : mid ≠ []) (hslash : '/' ∉ mid)

include h hslash

theorem colon_mid : ':' ∈ left ∨ ':' ∉ mid ++ Text.beforeComment right := by
  rw [← Text.beforeComment_append hslash]
  exact h.colon

theorem replace (hslash' : '/' ∉ mid') (hcolon' : ':' ∉ mid') : InBody left (mid' ++ right) := by
  refine ⟨h.not_infix, h.colon_mid hslash |>.imp_right fun hnot => ?_⟩
  rw [Text.beforeComment_append hslash', List.mem_append, not_or]
  exact ⟨hcolon', fun hright => hnot (List.mem_append_right _ hright)⟩

include hne

theorem beforeComment_eq :
    Text.beforeComment (left ++ mid ++ right) = left ++ (mid ++ Text.beforeComment right) := by
  rw [List.append_assoc, Text.beforeComment_append_of_not_infix h.not_infix,
    Text.beforeComment_append hslash]
  intro c hc heq
  rw [List.head?_append_of_ne_nil _ hne] at hc
  exact hslash (heq ▸ List.mem_of_head? hc)

theorem name?_eq :
    Line.name? (left ++ mid ++ right) = ((Text.cutAt? ':' left).map (·.1)).map Text.trim := by
  rw [Line.name?, h.beforeComment_eq hne hslash,
    ← Text.map_fst_cutAt?_append (h.colon_mid hslash), Option.map_map]
  rfl

theorem tokens_eq :
    Text.tokens (Text.afterColon (Text.beforeComment (left ++ mid ++ right))) =
      Text.tokens (Text.afterColon left ++ mid ++ Text.beforeComment right) := by
  rw [h.beforeComment_eq hne hslash, Text.afterColon_append (h.colon_mid hslash),
    List.append_assoc]

end

/-- Lines whose bodies have the same tokens, but for the way the first one is written, are alike. -/
theorem alike {head head' : Text} {operands : List Text} (h : InBody left (mid ++ right))
    (h' : InBody left (mid' ++ right)) (hne : mid ≠ []) (hne' : mid' ≠ []) (hslash : '/' ∉ mid)
    (hslash' : '/' ∉ mid')
    (htokens : Text.tokens (Text.afterColon left ++ mid ++ Text.beforeComment right) =
      head :: operands)
    (htokens' : Text.tokens (Text.afterColon left ++ mid' ++ Text.beforeComment right) =
      head' :: operands)
    (hread : Mnemonic.read head' = Mnemonic.read head) :
    Line.Alike (left ++ mid ++ right) (left ++ mid' ++ right) := by
  refine ⟨?_, ?_⟩
  · rw [h.name?_eq hne hslash, h'.name?_eq hne' hslash']
  · rw [Line.instruction?_eq, Line.instruction?_eq,
      Line.content?_of_tokens ((h.tokens_eq hne hslash).trans htokens),
      Line.content?_of_tokens ((h'.tokens_eq hne' hslash').trans htokens'), Option.map_some,
      Option.map_some, hread]

end InBody

theorem Text.Separates.not_mem {sep : Text} (h : sep.Separates) {c : Char}
    (hc : isSeparator c = false) : c ∉ sep := by
  intro hmem
  rw [h.2 c hmem] at hc
  contradiction

namespace Mnemonic

theorem ofName?_congr {head head' : Text} (h : head'.toLower = head.toLower) :
    ofName? head' = ofName? head := by
  rw [ofName?, ofName?, h]

theorem read_congr {head head' : Text} (hop : (ofName? head).isSome)
    (h : head'.toLower = head.toLower) : read head' = read head := by
  obtain ⟨op, hop⟩ := Option.isSome_iff_exists.1 hop
  rw [read, read, ofName?_congr h, hop]

/-- The name of a mnemonic is plain, in whatever letters. -/
theorem printed_of_ofName? {head : Text} (h : (ofName? head).isSome) : head.Printed := by
  obtain ⟨op, hop⟩ := Option.isSome_iff_exists.1 h
  have hname : op.name = head.toLower := by simpa using List.find?_some hop
  have hprinted := printed_name op
  rw [hname] at hprinted
  exact hprinted.of_toLower

end Mnemonic

namespace LineEdit

theorem alike_of_comment (line remark : Text) : Line.Alike line (line ++ " //" ++ remark) := by
  apply Line.alike_of_trim_beforeComment
  rw [List.append_assoc]
  by_cases hcomment : ("//" : Text) <:+: line
  · rw [Text.beforeComment_append_of_infix hcomment]
  · have hline : Text.beforeComment line = line := by
      have hseam := Text.beforeComment_append_of_not_infix hcomment (b := [])
        (fun c hc => nomatch hc)
      rwa [List.append_nil, Text.beforeComment, List.append_nil] at hseam
    have hblank : ∀ c ∈ [' '], Text.isBlank c = true := by
      rw [List.forall_mem_singleton]
      decide
    calc Text.trim (Text.beforeComment (line ++ ((" //" : Text) ++ remark)))
        = Text.trim (line ++ [' ']) := by
          rw [Text.beforeComment_append_of_not_infix hcomment]
          · rfl
          · intro c hc
            obtain rfl := Option.some.inj hc
            decide
      _ = Text.trim (Text.beforeComment line) := by rw [Text.trim_append_blanks hblank, hline]

theorem alike_of_separator {left sep sep' right : Text} (hbody : InBody left (sep ++ right))
    (hleft : Text.tokens (Text.afterColon left) ≠ []) (hsep : sep.Separates)
    (hsep' : sep'.Separates) : Line.Alike (left ++ sep ++ right) (left ++ sep' ++ right) := by
  have hslash : Text.isSeparator '/' = false := by decide
  have hcolon : Text.isSeparator ':' = false := by decide
  obtain ⟨head, operands, htokens⟩ := List.exists_cons_of_ne_nil hleft
  have hcut {sep : Text} (hsep : sep.Separates) :
      Text.tokens (Text.afterColon left ++ sep ++ Text.beforeComment right) =
        head :: (operands ++ Text.tokens (Text.beforeComment right)) := by
    rw [Text.tokens_append_separators_append _ _ hsep.1 hsep.2, htokens, List.cons_append]
  have hbody' := hbody.replace (hsep.not_mem hslash) (hsep'.not_mem hslash) (hsep'.not_mem hcolon)
  exact hbody.alike hbody' hsep.1 hsep'.1 (hsep.not_mem hslash) (hsep'.not_mem hslash) (hcut hsep)
    (hcut hsep') rfl

theorem alike_of_letterCase {left head head' right : Text} (hbody : InBody left (head ++ right))
    (hfirst : ∀ c ∈ Text.afterColon left, Text.isSeparator c = true)
    (hlast : ∀ c ∈ (Text.beforeComment right).head?, Text.isSeparator c = true)
    (hhead : (Mnemonic.ofName? head).isSome) (hcase : head'.toLower = head.toLower) :
    Line.Alike (left ++ head ++ right) (left ++ head' ++ right) := by
  have hslash : Text.isPlain '/' = false := by decide
  have hcolon : Text.isPlain ':' = false := by decide
  have hprinted := Mnemonic.printed_of_ofName? hhead
  have hprinted' : head'.Printed := by
    rw [← Mnemonic.ofName?_congr hcase] at hhead
    exact Mnemonic.printed_of_ofName? hhead
  have hcut {head : Text} (h : head.Printed) :
      Text.tokens (Text.afterColon left ++ head ++ Text.beforeComment right) =
        head :: Text.tokens (Text.beforeComment right) := by
    rw [List.append_assoc, Text.tokens_separators_append hfirst, h.tokens_append hlast]
  have hbody' := hbody.replace (hprinted.not_mem hslash) (hprinted'.not_mem hslash)
    (hprinted'.not_mem hcolon)
  exact hbody.alike hbody' hprinted.1 hprinted'.1 (hprinted.not_mem hslash)
    (hprinted'.not_mem hslash) (hcut hprinted) (hcut hprinted') (Mnemonic.read_congr hhead hcase)

theorem alike {line line' : Text} (h : LineEdit line line') : Line.Alike line line' := by
  cases h with
  | blanks line h h' =>
    have htrim {before after : Text} (h : ∀ c ∈ before ++ after, Text.isBlank c = true) :
        Text.trim (before ++ line ++ after) = Text.trim line :=
      Text.trim_surrounded (fun c hc => h c (List.mem_append_left _ hc))
        (fun c hc => h c (List.mem_append_right _ hc)) line
    apply Line.alike_of_trim_beforeComment
    rw [← Text.trim_beforeComment_trim, htrim h', ← htrim h, Text.trim_beforeComment_trim]
  | separator hbody hleft hsep hsep' => exact alike_of_separator hbody hleft hsep hsep'
  | comment => exact alike_of_comment _ _
  | letterCase hbody hfirst hlast hhead hcase =>
    exact alike_of_letterCase hbody hfirst hlast hhead hcase

end LineEdit

/-! ## Lines without an instruction -/

namespace Line

/-- Blanks and a comment, of which either may be missing. -/
def IsRemark (line : Text) : Prop := ∀ c ∈ Text.beforeComment line, Text.isBlank c = true

/-- What a line of its own for a label can define: a name that is not blank and has neither a colon
nor the start of a comment. -/
structure IsName (name : Text) : Prop where
  trim_ne_nil : Text.trim name ≠ []
  colon : ':' ∉ name
  not_infix : ¬ ("//" : Text) <:+: name

theorem idle_of_isRemark {line : Text} (h : IsRemark line) :
    Idle line ∧ label? line = none := by
  have hcode : Text.trim (Text.beforeComment line) = [] := by
    have htrim := Text.trim_blanks_append h []
    rwa [List.append_nil] at htrim
  have hname : name? line = none := by rw [name?_eq, hcode]; rfl
  have hinstruction : instruction? line = none := by
    rw [instruction?_eq, ← content?_trim, hcode]
    rfl
  refine ⟨⟨takesSlot_of_instruction?_eq_none hinstruction, ?_⟩, ?_⟩
  · rw [flaw?_eq, hname, hinstruction]
    rfl
  · rw [label?_eq, hname]
    rfl

theorem idle_of_isName {name : Text} (h : IsName name) :
    Idle (name ++ [':']) ∧ label? (name ++ [':']) = some (Text.trim name) := by
  have hcode : Text.beforeComment (name ++ [':']) = name ++ [':'] := by
    rw [Text.beforeComment_append_of_not_infix h.not_infix]
    · rfl
    · intro c hc
      obtain rfl := Option.some.inj hc
      decide
  have hname : name? (name ++ [':']) = some (Text.trim name) := by
    rw [name?, hcode, Text.cutAt?_append_cons h.colon, Option.map_some]
  have hinstruction : instruction? (name ++ [':']) = none := by
    rw [instruction?_eq, hcode, content?, Text.afterColon_append_cons h.colon]
    simp [show Text.tokens [] = [] from rfl, show Text.trim [] = [] from rfl]
  refine ⟨⟨takesSlot_of_instruction?_eq_none hinstruction, ?_⟩, ?_⟩
  · rw [flaw?_eq, hname]
    exact if_neg h.trim_ne_nil
  · rw [label?_eq, hname, Option.filter_some, if_pos (decide_eq_true h.trim_ne_nil)]

end Line

/-! ## Edits of a source -/

/-- The texts before, between and behind the line feeds. -/
def Text.pieces (t : Text) : List Text := splitOn (· == '\n') t

theorem Source.ofText_eq_ofLines_pieces (t : Text) : ofText t = ofLines (Text.pieces t) := by
  rw [← ofLines_pieces]
  exact ofLines_congr (by simp [Text.pieces, Text.trim_dropReturn])

/-- One edit of a source, with the names of the labels that it inserts. -/
inductive Edit (src src' : Text) : List Text → Prop
  /-- A line in another layout. -/
  | line {before after : List Text} {line line' : Text}
      (h : Text.pieces src = before ++ line :: after)
      (h' : Text.pieces src' = before ++ line' :: after) (hline : LineEdit line line') :
      Edit src src' []
  /-- A line without a statement. -/
  | remark {before after : List Text} {line : Text} (h : Text.pieces src = before ++ after)
      (h' : Text.pieces src' = before ++ line :: after) (hline : Line.IsRemark line) :
      Edit src src' []
  /-- A line for a label that is neither defined nor looked up. -/
  | label {before after : List Text} {name : Text} (h : Text.pieces src = before ++ after)
      (h' : Text.pieces src' = before ++ (name ++ [':']) :: after) (hname : Line.IsName name)
      (hlabels : Text.trim name ∉ (assemble src).labels)
      (hreferences : Text.trim name ∉ (Source.ofText src).references) :
      Edit src src' [Text.trim name]

/-- Any number of edits, with the names of the labels that they insert. -/
inductive Edited (src : Text) : Text → List Text → Prop
  | refl : Edited src src []
  | step {src' src'' : Text} {names names' : List Text} (h : Edited src src' names)
      (hedit : Edit src' src'' names') : Edited src src'' (names ++ names')

theorem Relaid.extends_assemble_ofText {src src' : Text} {names : List Text}
    (h : Relaid names (Text.pieces src) (Text.pieces src'))
    (hnew : ∀ name ∈ names, name ∉ (assemble src).labels ∧ name ∉ (Source.ofText src).references)
    (hdefined : ∀ name ∈ names, name ∈ (assemble src').labels) :
    Program.Extends names (assemble src) (assemble src') := by
  have hextends : Program.Extends names (Source.ofLines (Text.pieces src)).assemble
      (Source.ofLines (Text.pieces src')).assemble := by
    refine h.extends_assemble ?_ ?_
    · rw [← Source.ofText_eq_ofLines_pieces]
      exact hnew
    · rw [← Source.ofText_eq_ofLines_pieces]
      exact hdefined
  rwa [← Source.ofText_eq_ofLines_pieces, ← Source.ofText_eq_ofLines_pieces] at hextends

/-- One idle line more. -/
theorem Relaid.insert {names before : List Text} {line : Text} (hidle : Line.Idle line)
    (hlabel : ∀ name, Line.label? line = some name → name ∈ names ∧ addressOf? before name = none)
    (after : List Text) : Relaid names (before ++ after) (before ++ line :: after) := by
  have hrelaid := ((Relaid.refl names before).idle hidle hlabel).append after
  rwa [List.append_assoc, List.singleton_append] at hrelaid

theorem Edit.extends {src src' : Text} {names : List Text} (h : Edit src src' names) :
    Program.Extends names (assemble src) (assemble src') := by
  cases h with
  | @line before after l l' h h' hline =>
    have hrelaid := ((Relaid.refl [] before).line hline.alike).append after
    rw [List.append_assoc, List.append_assoc, List.singleton_append, List.singleton_append, ← h,
      ← h'] at hrelaid
    exact hrelaid.extends_assemble_ofText (List.forall_mem_nil _) (List.forall_mem_nil _)
  | @remark before after l h h' hline =>
    obtain ⟨hidle, hnone⟩ := Line.idle_of_isRemark hline
    have hrelaid : Relaid [] (Text.pieces src) (Text.pieces src') := by
      rw [h, h']
      exact Relaid.insert hidle (by simp [hnone]) after
    exact hrelaid.extends_assemble_ofText (List.forall_mem_nil _) (List.forall_mem_nil _)
  | @label before after name h h' hname hlabels hreferences =>
    obtain ⟨hidle, hlabel⟩ := Line.idle_of_isName hname
    have hlabels' := hlabels
    rw [assemble, Source.ofText_eq_ofLines_pieces, h] at hlabels'
    have hfree : addressOf? before (Text.trim name) = none := by
      rw [← Option.not_isSome_iff_eq_none, isSome_addressOf?_iff]
      rintro ⟨l, hl, hdefines⟩
      exact hlabels' (Source.mem_labels_of_label? (List.mem_append_left _ hl) hdefines)
    have hrelaid : Relaid [Text.trim name] (Text.pieces src) (Text.pieces src') := by
      rw [h, h']
      refine Relaid.insert hidle (fun other hother => ?_) after
      obtain rfl := Option.some.inj (hlabel.symm.trans hother)
      exact ⟨List.mem_singleton_self _, hfree⟩
    refine hrelaid.extends_assemble_ofText ?_ ?_
    · rw [List.forall_mem_singleton]
      exact ⟨hlabels, hreferences⟩
    · rw [List.forall_mem_singleton, assemble, Source.ofText_eq_ofLines_pieces, h']
      exact Source.mem_labels_of_label? (by simp) hlabel

namespace Program.Extends

theorem refl (p : Program) : Extends [] p p :=
  ⟨rfl, fun _ _ => rfl, List.forall_mem_nil _, rfl⟩

theorem mem_labels_iff {names : List Text} {p p' : Program} (h : Extends names p p') {name : Text}
    (hname : name ∉ names) : name ∈ p'.labels ↔ name ∈ p.labels := by
  rw [Std.TreeMap.mem_iff_isSome_getElem?, Std.TreeMap.mem_iff_isSome_getElem?, h.labels_eq _ hname]

theorem trans {names names' : List Text} {p p' p'' : Program} (h : Extends names p p')
    (h' : Extends names' p' p'') : Extends (names ++ names') p p'' := by
  refine ⟨h'.image_eq.trans h.image_eq, ?_, ?_, h'.problems_eq.trans h.problems_eq⟩
  · intro name hname
    rw [List.mem_append, not_or] at hname
    rw [h'.labels_eq _ hname.2, h.labels_eq _ hname.1]
  · intro name hname
    refine ⟨fun hold => ?_, ?_⟩
    · by_cases hnames : name ∈ names
      · exact (h.mem_labels name hnames).1 hold
      · have hnames' := (List.mem_append.1 hname).resolve_left hnames
        exact (h'.mem_labels name hnames').1 ((h.mem_labels_iff hnames).2 hold)
    · by_cases hnames' : name ∈ names'
      · exact (h'.mem_labels name hnames').2
      · have hnames := (List.mem_append.1 hname).resolve_right hnames'
        exact (h'.mem_labels_iff hnames').2 (h.mem_labels name hnames).2

end Program.Extends

/-- Edits of the layout change no word, no address and no problem, and insert the new labels. -/
theorem extends_of_edited {src src' : Text} {names : List Text} (h : Edited src src' names) :
    Program.Extends names (assemble src) (assemble src') := by
  induction h with
  | refl => exact .refl (assemble src)
  | step _ hedit ih => exact ih.trans hedit.extends

/-- A loop in another layout: small letters, a comment, another separator, and a label for its last
line. -/
theorem extends_of_edited_loop :
    Edited "a: ADDI x1, x1, 1\njal x0, a" "a: addi x1, x1, 1 // up\nlast:\njal x0 a" ["last"] ∧
      Program.Extends ["last"] (assemble "a: ADDI x1, x1, 1\njal x0, a")
        (assemble "a: addi x1, x1, 1 // up\nlast:\njal x0 a") := by
  have hletters : LineEdit ("a: " ++ "ADDI" ++ " x1, x1, 1") ("a: " ++ "addi" ++ " x1, x1, 1") :=
    .letterCase ⟨by decide, by decide⟩ (List.all_eq_true.1 (by decide)) (by rintro _ ⟨⟩; decide)
      (by decide) (by decide)
  have hseparator : LineEdit ("jal x0" ++ ", " ++ "a") ("jal x0" ++ " " ++ "a") :=
    .separator ⟨by decide, by decide⟩ (by decide)
      ⟨by decide, List.all_eq_true.1 (by decide)⟩ ⟨by decide, List.all_eq_true.1 (by decide)⟩
  have h₁ : Edit "a: ADDI x1, x1, 1\njal x0, a" "a: addi x1, x1, 1\njal x0, a" [] :=
    @Edit.line _ _ [] ["jal x0, a"] _ _ (by decide) (by decide) hletters
  have h₂ : Edit "a: addi x1, x1, 1\njal x0, a" "a: addi x1, x1, 1 // up\njal x0, a" [] :=
    @Edit.line _ _ [] ["jal x0, a"] _ _ (by decide) (by decide) (.comment "a: addi x1, x1, 1" " up")
  have h₃ : Edit "a: addi x1, x1, 1 // up\njal x0, a" "a: addi x1, x1, 1 // up\njal x0 a" [] :=
    @Edit.line _ _ ["a: addi x1, x1, 1 // up"] [] _ _ (by decide) (by decide) hseparator
  have h₄ : Edit "a: addi x1, x1, 1 // up\njal x0 a"
      "a: addi x1, x1, 1 // up\nlast:\njal x0 a" [Text.trim "last"] :=
    @Edit.label _ _ ["a: addi x1, x1, 1 // up"] ["jal x0 a"] _ (by decide) (by decide)
      ⟨by decide, by decide, by decide⟩ (by decide +kernel) (by decide +kernel)
  have hedited := (((Edited.refl.step h₁).step h₂).step h₃).step h₄
  exact ⟨hedited, extends_of_edited hedited⟩

end RefHart
