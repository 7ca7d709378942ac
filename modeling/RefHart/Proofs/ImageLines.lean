import Mathlib
import RefHart.Proofs.Denotation
import RefHart.Proofs.Images

/-!
# Lines of an image

A trimmed line of an image is blank, a comment, or a byte in one or two hexadecimal digits
(`Says`). A text is to be read as the bytes of its lines, in their order; if there is another line,
the first one is to be reported, with its number and without the blanks around it (`ReadAs`).

**Theorem (`line_grammar`).** The reader does this, except that it also takes one digit behind a
plus sign for a byte (`Signed`). It makes a difference exactly for the texts in which such a line is
the first that the format does not know.

The reader's limit of two bytes is one of two characters, since only digits and the sign get as far
(`utf8Length_of_unsigned?`). So a single line is decided by what it is accepted as
(`readLine_eq_ok_iff`, `readLine_eq_error_iff`), and the lines of a text follow by induction, where
the number of the first line is left open.
-/

namespace RefHart

/-! ## Short numbers -/

namespace Numeral

variable {base : Nat} {t : Text} {c c' : Char} {n d d' : Nat}

theorem denotes_singleton_iff : Denotes base [c] n ↔ Digit base c n := by
  constructor
  · rintro ⟨-, ds, hds, rfl⟩
    obtain _ | ⟨h, ⟨⟩⟩ := hds
    simpa using h
  · intro h
    exact ⟨List.cons_ne_nil _ _, [n], .cons h .nil, by simp⟩

theorem denotes_pair_iff :
    Denotes base [c, c'] n ↔ ∃ d d', Digit base c d ∧ Digit base c' d' ∧ n = base * d + d' := by
  constructor
  · rintro ⟨-, ds, hds, rfl⟩
    obtain _ | ⟨h, _ | ⟨h', ⟨⟩⟩⟩ := hds
    exact ⟨_, _, h, h', by simp [Nat.ofDigits_cons, Nat.add_comm]⟩
  · rintro ⟨d, d', h, h', rfl⟩
    exact ⟨List.cons_ne_nil _ _, [d, d'], .cons h (.cons h' .nil),
      by simp [Nat.ofDigits_cons, Nat.add_comm]⟩

theorem utf8Size_of_isDigit (h : isDigit 16 c = true) : c.utf8Size = 1 := by
  obtain ⟨d, hd⟩ := Option.isSome_iff_exists.1 h
  obtain ⟨hd, rfl | rfl⟩ := (digit?_eq_some_iff (by decide)).1 hd <;> interval_cases d <;> decide

theorem utf8Length_of_unsigned? (h : unsigned? 16 t = some n) : t.utf8Length = t.length := by
  rw [unsigned?_eq_some_iff (by decide)] at h
  apply Text.utf8Length_eq_length
  obtain h | ⟨digits, rfl, h⟩ := h
  · exact fun c hc => utf8Size_of_isDigit (h.isDigit_of_mem (by decide) hc)
  · exact List.forall_mem_cons.2
      ⟨by decide, fun c hc => utf8Size_of_isDigit (h.isDigit_of_mem (by decide) hc)⟩

end Numeral

/-! ## Single lines -/

namespace Image

open Numeral (Digit)

variable {t : Text} {b : Byte} {b? : Option Byte}

/-- What a trimmed line says: nothing, or a byte in one or two hexadecimal digits. -/
inductive Says : Text → Option Byte → Prop
  | blank : Says [] none
  | comment (rest : Text) : Says ('/' :: '/' :: rest) none
  | oneDigit {c : Char} {d : Nat} (h : Digit 16 c d) : Says [c] (some (BitVec.ofNat 8 d))
  | twoDigits {c c' : Char} {d d' : Nat} (h : Digit 16 c d) (h' : Digit 16 c' d') :
      Says [c, c'] (some (BitVec.ofNat 8 (16 * d + d')))

/-- A byte in one hexadecimal digit with a plus sign in front of it. -/
def Signed (t : Text) (b? : Option Byte) : Prop :=
  ∃ c d, t = ['+', c] ∧ Digit 16 c d ∧ b? = some (BitVec.ofNat 8 d)

/-- What the reader takes a trimmed line for. -/
def Accepts (t : Text) (b? : Option Byte) : Prop := Says t b? ∨ Signed t b?

theorem Signed.not_says (h : Signed t b?) (b'? : Option Byte) : ¬ Says t b'? := by
  obtain ⟨c, d, rfl, -, -⟩ := h
  intro h
  cases h with
  | twoDigits h h' => exact absurd (h.isDigit (by decide)) (by decide)

theorem isRemark_iff : isRemark t = true ↔ Says t none := by
  rw [isRemark, Bool.or_eq_true, beq_iff_eq, Text.dropLeading?]
  constructor
  · rintro (rfl | h)
    · exact .blank
    · split_ifs at h with hprefix
      · obtain ⟨rest, rfl⟩ := List.isPrefixOf_iff_prefix.1 hprefix
        exact .comment rest
      · contradiction
  · intro h
    cases h with
    | blank => exact .inl rfl
    | comment rest => exact .inr rfl

/-- The length of a number is the same in bytes and in characters. -/
theorem byte?_eq_some_iff_length : byte? t = some b ↔
    t.length ≤ 2 ∧ ∃ n, Numeral.unsigned? 16 t = some n ∧ BitVec.ofNat 8 n = b := by
  rw [byte?]
  constructor
  · intro h
    split_ifs at h with hlength
    obtain ⟨n, hn, hb⟩ := Option.map_eq_some_iff.1 h
    exact ⟨Numeral.utf8Length_of_unsigned? hn ▸ hlength, n, hn, hb⟩
  · rintro ⟨hlength, n, hn, rfl⟩
    rw [if_pos (Numeral.utf8Length_of_unsigned? hn ▸ hlength), hn, Option.map_some]

theorem byte?_eq_some_iff : byte? t = some b ↔ Accepts t (some b) := by
  rw [byte?_eq_some_iff_length]
  simp only [Numeral.unsigned?_eq_some_iff (show 16 ≤ 16 from le_rfl)]
  constructor
  · rintro ⟨hlength, n, h | ⟨digits, rfl, h⟩, rfl⟩
    · match t with
      | [] => exact absurd rfl h.1
      | [c] => exact .inl (.oneDigit (Numeral.denotes_singleton_iff.1 h))
      | [c, c'] =>
        obtain ⟨d, d', hd, hd', rfl⟩ := Numeral.denotes_pair_iff.1 h
        exact .inl (.twoDigits hd hd')
      | _ :: _ :: _ :: _ => simp at hlength
    · match digits with
      | [] => exact absurd rfl h.1
      | [c] => exact .inr ⟨c, n, rfl, Numeral.denotes_singleton_iff.1 h, rfl⟩
      | _ :: _ :: _ => simp at hlength
  · rintro (h | ⟨c, d, rfl, h, hb⟩)
    · cases h with
      | oneDigit h => exact ⟨Nat.one_le_ofNat, _, .inl (Numeral.denotes_singleton_iff.2 h), rfl⟩
      | twoDigits h h' =>
        exact ⟨le_rfl, _, .inl (Numeral.denotes_pair_iff.2 ⟨_, _, h, h', rfl⟩), rfl⟩
    · exact ⟨le_rfl, d, .inr ⟨_, rfl, Numeral.denotes_singleton_iff.2 h⟩, (Option.some.inj hb).symm⟩

/-- No byte is taken for a remark, as a slash is not a digit. -/
theorem isRemark_of_accepts_some (h : Accepts t (some b)) : isRemark t = false := by
  rw [Bool.eq_false_iff, ne_eq, isRemark_iff]
  intro hnone
  obtain h | h := h
  · cases hnone with
    | blank => cases h
    | comment rest =>
      cases h with
      | twoDigits h h' => exact absurd (h.isDigit (by decide)) (by decide)
  · exact h.not_says none hnone

theorem readLine_eq_ok_iff {line : Text} {n : Nat} :
    readLine (line, n) = .ok b? ↔ Accepts (Text.trim line) b? := by
  rw [readLine]
  dsimp only
  constructor
  · intro h
    split_ifs at h with hremark
    · obtain rfl := Except.ok.inj h
      exact .inl (isRemark_iff.1 hremark)
    · split at h
      · obtain rfl := Except.ok.inj h
        exact byte?_eq_some_iff.1 ‹_›
      · contradiction
  · intro h
    cases b? with
    | none =>
      obtain h | ⟨c, d, -, -, hb⟩ := h
      · rw [if_pos (isRemark_iff.2 h)]
      · contradiction
    | some b =>
      rw [isRemark_of_accepts_some h, byte?_eq_some_iff.2 h]
      rfl

theorem eq_of_readLine_eq_error {line : Text} {n : Nat} {e : ByteError}
    (h : readLine (line, n) = .error e) : e = ⟨n, Text.trim line⟩ := by
  rw [readLine] at h
  dsimp only at h
  split_ifs at h
  split at h
  · contradiction
  · exact (Except.error.inj h).symm

theorem readLine_eq_error_iff {line : Text} {n : Nat} {e : ByteError} :
    readLine (line, n) = .error e ↔
      (¬ ∃ b?, Accepts (Text.trim line) b?) ∧ e = ⟨n, Text.trim line⟩ := by
  simp only [← readLine_eq_ok_iff (n := n)]
  cases hread : readLine (line, n) with
  | ok b? => simp
  | error e' =>
    obtain rfl := eq_of_readLine_eq_error hread
    simp [eq_comm]

/-! ## Outcomes -/

section

variable (R : Text → Option Byte → Prop)

/-- The line after the given ones is the first that stands for nothing under a relation between
trimmed lines and what they hold. -/
def Fails (ls before : List Text) (line : Text) : Prop :=
  (∃ after, ls = before ++ line :: after) ∧ (∀ line' ∈ before, ∃ b?, R (Text.trim line') b?) ∧
    ¬ ∃ b?, R (Text.trim line) b?

/-- The outcome of reading a text under such a relation: the bytes that its lines hold, or the first
line that stands for nothing. -/
def ReadAs (t : Text) : Except ByteError (List Byte) → Prop
  | .ok bytes => ∃ held, List.Forall₂ (fun line b? => R (Text.trim line) b?) (Text.lines t) held ∧
      bytes = held.reduceOption
  | .error e => ∃ before line, Fails R (Text.lines t) before line ∧
      e = ⟨before.length + 1, Text.trim line⟩

end

section

variable {R : Text → Option Byte → Prop} {line first : Text} {ls before : List Text}

theorem fails_first (h : ¬ ∃ b?, R (Text.trim line) b?) : Fails R (line :: ls) [] line :=
  ⟨⟨ls, rfl⟩, by simp, h⟩

theorem Fails.cons (hfirst : ∃ b?, R (Text.trim first) b?) (h : Fails R ls before line) :
    Fails R (first :: ls) (first :: before) line := by
  obtain ⟨⟨after, rfl⟩, hbefore, hfails⟩ := h
  exact ⟨⟨after, rfl⟩, List.forall_mem_cons.2 ⟨hfirst, hbefore⟩, hfails⟩

/-- Either the first line fails, or it stands for something and a later one fails. -/
theorem exists_fails_cons_iff {P : Nat → Text → Prop} :
    (∃ before line', Fails R (line :: ls) before line' ∧ P before.length line') ↔
      (¬ ∃ b?, R (Text.trim line) b?) ∧ P 0 line ∨ (∃ b?, R (Text.trim line) b?) ∧
        ∃ before line', Fails R ls before line' ∧ P (before.length + 1) line' := by
  constructor
  · rintro ⟨_ | ⟨first, before⟩, line', ⟨⟨after, hls⟩, hbefore, hfails⟩, hP⟩
    · obtain ⟨rfl, rfl⟩ := List.cons.inj hls
      exact .inl ⟨hfails, hP⟩
    · obtain ⟨rfl, rfl⟩ := List.cons.inj hls
      obtain ⟨hfirst, hbefore⟩ := List.forall_mem_cons.1 hbefore
      exact .inr ⟨hfirst, before, line', ⟨⟨after, rfl⟩, hbefore, hfails⟩, hP⟩
  · rintro (⟨hfails, hP⟩ | ⟨hfirst, before, line', hfails, hP⟩)
    · exact ⟨[], line, fails_first hfails, hP⟩
    · exact ⟨line :: before, line', hfails.cons hfirst, hP⟩

theorem exists_held_or_fails (R : Text → Option Byte → Prop) (ls : List Text) :
    (∃ held, List.Forall₂ (fun line b? => R (Text.trim line) b?) ls held) ∨
      ∃ before line, Fails R ls before line := by
  induction ls with
  | nil => exact .inl ⟨[], .nil⟩
  | cons line ls ih =>
    by_cases hline : ∃ b?, R (Text.trim line) b?
    · obtain ⟨held, hheld⟩ | ⟨before, line', hfails⟩ := ih
      · obtain ⟨b?, hb⟩ := hline
        exact .inl ⟨b? :: held, .cons hb hheld⟩
      · exact .inr ⟨line :: before, line', hfails.cons hline⟩
    · exact .inr ⟨[], line, fails_first hline⟩

theorem exists_readAs (R : Text → Option Byte → Prop) (t : Text) : ∃ r, ReadAs R t r := by
  obtain ⟨held, hheld⟩ | ⟨before, line, hfails⟩ := exists_held_or_fails R (Text.lines t)
  · exact ⟨.ok held.reduceOption, held, hheld, rfl⟩
  · exact ⟨.error ⟨before.length + 1, Text.trim line⟩, before, line, hfails, rfl⟩

end

/-! ## Reading -/

section

variable {ε α β : Type} {f : α → Except ε β} {a : α} {l : List α} {bs : List β} {e : ε}

theorem mapM_cons_eq_ok_iff : (a :: l).mapM f = .ok bs ↔
    ∃ b bs', f a = .ok b ∧ l.mapM f = .ok bs' ∧ bs = b :: bs' := by
  rw [List.mapM_cons]
  cases f a <;> cases l.mapM f <;> simp [bind, Except.bind, pure, Except.pure, eq_comm]

theorem mapM_cons_eq_error_iff : (a :: l).mapM f = .error e ↔
    f a = .error e ∨ (∃ b, f a = .ok b) ∧ l.mapM f = .error e := by
  rw [List.mapM_cons]
  cases f a <;> cases l.mapM f <;> simp [bind, Except.bind, pure, Except.pure]

end

theorem mapM_readLine_eq_ok_iff {ls : List Text} {n : Nat} {held : List (Option Byte)} :
    (ls.zipIdx n).mapM readLine = .ok held ↔
      List.Forall₂ (fun line b? => Accepts (Text.trim line) b?) ls held := by
  induction ls generalizing n held with
  | nil => cases held <;> simp [pure, Except.pure]
  | cons line ls ih =>
    rw [List.zipIdx_cons, mapM_cons_eq_ok_iff, List.forall₂_cons_left_iff]
    simp only [readLine_eq_ok_iff, ih]

theorem mapM_readLine_eq_error_iff {ls : List Text} {n : Nat} {e : ByteError} :
    (ls.zipIdx n).mapM readLine = .error e ↔ ∃ before line, Fails Accepts ls before line ∧
      e = ⟨before.length + n, Text.trim line⟩ := by
  induction ls generalizing n with
  | nil => simp [Fails, pure, Except.pure]
  | cons line ls ih =>
    rw [List.zipIdx_cons, mapM_cons_eq_error_iff, readLine_eq_error_iff, ih,
      exists_fails_cons_iff (P := fun k line => e = ⟨k + n, Text.trim line⟩)]
    simp only [readLine_eq_ok_iff, Nat.zero_add, Nat.add_assoc, Nat.add_comm 1 n]

theorem read_eq_iff {r : Except ByteError (List Byte)} : read t = r ↔ ReadAs Accepts t r := by
  rw [read]
  cases r with
  | ok bytes =>
    simp only [ReadAs, ← mapM_readLine_eq_ok_iff (n := 1)]
    cases ((Text.lines t).zipIdx 1).mapM readLine <;>
      simp [Except.map, List.reduceOption, eq_comm]
  | error e =>
    rw [ReadAs, ← mapM_readLine_eq_error_iff]
    cases ((Text.lines t).zipIdx 1).mapM readLine <;> simp [Except.map]

/-! ## Signed digits -/

/-- Unless the first line that says nothing is a signed digit, the reader takes no other line for
something than what it says. -/
theorem ReadAs.accepts {r : Except ByteError (List Byte)} (h : ReadAs Says t r)
    (hsigned : ¬ ∃ before line, Fails Says (Text.lines t) before line ∧
      ∃ b?, Signed (Text.trim line) b?) : ReadAs Accepts t r := by
  cases r with
  | ok bytes =>
    obtain ⟨held, hheld, rfl⟩ := h
    exact ⟨held, hheld.imp fun _ _ => .inl, rfl⟩
  | error e =>
    obtain ⟨before, line, hfails, rfl⟩ := h
    obtain ⟨hls, hbefore, hline⟩ := hfails
    refine ⟨before, line, ⟨hls, fun line' hmem => ?_, ?_⟩, rfl⟩
    · obtain ⟨b?, hb⟩ := hbefore line' hmem
      exact ⟨b?, .inl hb⟩
    · rintro ⟨b?, hb | hb⟩
      · exact hline ⟨b?, hb⟩
      · exact hsigned ⟨before, line, ⟨hls, hbefore, hline⟩, b?, hb⟩

theorem forall_read_iff_says : (∀ r, read t = r ↔ ReadAs Says t r) ↔
    ¬ ∃ before line, Fails Says (Text.lines t) before line ∧ ∃ b?, Signed (Text.trim line) b? := by
  constructor
  · rintro h ⟨before, line, hfails, b?, hsigned⟩
    have hread := (h (.error ⟨before.length + 1, Text.trim line⟩)).2 ⟨before, line, hfails, rfl⟩
    obtain ⟨before', line', ⟨-, -, hline'⟩, he⟩ := read_eq_iff.1 hread
    rw [← (ByteError.mk.inj he).2] at hline'
    exact hline' ⟨b?, .inr hsigned⟩
  · intro hsigned r
    constructor
    · intro h
      obtain ⟨r', hr'⟩ := exists_readAs Says t
      rwa [← h, read_eq_iff.2 (hr'.accepts hsigned)]
    · exact fun h => read_eq_iff.2 (h.accepts hsigned)

/-- Which texts are read as images, what they hold, and what is reported of the others. -/
theorem line_grammar (t : Text) :
    (∀ r, read t = r ↔ ReadAs Accepts t r) ∧
      ((∀ r, read t = r ↔ ReadAs Says t r) ↔ ¬ ∃ before line,
        Fails Says (Text.lines t) before line ∧ ∃ b?, Signed (Text.trim line) b?) :=
  ⟨fun _ => read_eq_iff, forall_read_iff_says⟩

example : read "+F\n\n 7 \n// G" = .ok [0x0F, 0x07] := by decide

end Image

end RefHart
