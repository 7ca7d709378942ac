import Mathlib
import RefHart.Proofs.Numeral

/-!
# What numerals denote

A row of digits denotes a number in positional notation (`Denotes`), whatever reads it. The readers
take exactly these rows and give their numbers: `natural?` the bare rows (`natural?_eq_some_iff`),
`unsigned?` also those behind a plus sign (`unsigned?_eq_some_iff`), and the readers of literals and
CSR addresses those in decimal or behind the mark of a hexadecimal number (`represents_iff`).

**Limits.** A reader that puts the number together digit by digit and gives up at the first one past
its limit (`bounded?`) does what reading it in full and testing it once does (`bounded?_eq_filter`):
a number only grows with more digits, and leading zeros keep it at 0.
-/

namespace RefHart.Numeral

variable {base limit : Nat} {t : Text} {n : Nat}

/-! ## Positional notation -/

/-- The character is a digit of the base, in either letter case. -/
def Digit (base : Nat) (c : Char) (d : Nat) : Prop :=
  d < base ∧ (c = d.digitChar ∨ c = d.digitChar.toUpper)

/-- The number that a row of digits denotes, the last one being that of the units. -/
def Denotes (base : Nat) (t : Text) (n : Nat) : Prop :=
  t ≠ [] ∧ ∃ ds, List.Forall₂ (Digit base) t ds ∧ n = Nat.ofDigits base ds.reverse

/-- A number in decimal digits, or in hexadecimal digits behind a mark. -/
inductive Represents : Text → Nat → Prop
  | decimal {t : Text} {n : Nat} (h : Denotes 10 t n) : Represents t n
  | hexadecimal {x : Char} {digits : Text} {n : Nat} (hx : x = 'x' ∨ x = 'X')
      (h : Denotes 16 digits n) : Represents ('0' :: x :: digits) n

/-! ## Digits -/

theorem digit?_eq_some_iff (hbase : base ≤ 16) {c : Char} {d : Nat} :
    digit? base c = some d ↔ Digit base c d := by
  constructor
  · intro h
    obtain ⟨hvalue, hlt⟩ := Option.filter_eq_some_iff.1 h
    refine ⟨of_decide_eq_true hlt, ?_⟩
    rw [← Char.ofNat_toNat c]
    split_ifs at hvalue with hdecimal hsmall hcapital
    · have hmin : 48 ≤ c.toNat := UInt32.le_iff_toNat_le.1 hdecimal.1
      have hmax : c.toNat ≤ 57 := UInt32.le_iff_toNat_le.1 hdecimal.2
      obtain rfl := Option.some.inj hvalue
      interval_cases c.toNat <;> decide
    · have hmin : 97 ≤ c.toNat := UInt32.le_iff_toNat_le.1 hsmall.1
      have hmax : c.toNat ≤ 102 := UInt32.le_iff_toNat_le.1 hsmall.2
      obtain rfl := Option.some.inj hvalue
      interval_cases c.toNat <;> decide
    · have hmin : 65 ≤ c.toNat := UInt32.le_iff_toNat_le.1 hcapital.1
      have hmax : c.toNat ≤ 70 := UInt32.le_iff_toNat_le.1 hcapital.2
      obtain rfl := Option.some.inj hvalue
      interval_cases c.toNat <;> decide
  · rintro ⟨hlt, rfl | rfl⟩
    · exact digit?_digitChar hbase hlt
    · rw [digit?_toUpper, digit?_digitChar hbase hlt]

theorem Digit.isDigit (hbase : base ≤ 16) {c : Char} {d : Nat} (h : Digit base c d) :
    isDigit base c = true := by
  rw [Numeral.isDigit, (digit?_eq_some_iff hbase).2 h]
  rfl

/-! ## Rows of digits -/

/-- A number with one more digit behind it. -/
def extend (base n : Nat) (c : Char) : Nat := n * base + (digit? base c).getD 0

theorem value_eq_foldl (base : Nat) (t : Text) : value base t = t.foldl (extend base) 0 := rfl

theorem foldl_extend (hbase : base ≤ 16) {ds : List Nat} (h : List.Forall₂ (Digit base) t ds)
    (m : Nat) :
    t.foldl (extend base) m = Nat.ofDigits base ds.reverse + base ^ ds.length * m := by
  induction h generalizing m with
  | nil => simp
  | cons hc _ ih =>
    rw [List.foldl_cons, ih, extend, (digit?_eq_some_iff hbase).2 hc, Option.getD_some,
      List.reverse_cons, Nat.ofDigits_append, Nat.ofDigits_singleton, List.length_reverse,
      List.length_cons]
    ring

theorem exists_digits (hbase : base ≤ 16) (h : t.all (isDigit base) = true) :
    ∃ ds, List.Forall₂ (Digit base) t ds := by
  induction t with
  | nil => exact ⟨[], .nil⟩
  | cons c t ih =>
    rw [List.all_cons, Bool.and_eq_true, isDigit, Option.isSome_iff_exists] at h
    obtain ⟨⟨d, hd⟩, ht⟩ := h
    obtain ⟨ds, hds⟩ := ih ht
    exact ⟨d :: ds, .cons ((digit?_eq_some_iff hbase).1 hd) hds⟩

theorem all_isDigit (hbase : base ≤ 16) {ds : List Nat} (h : List.Forall₂ (Digit base) t ds) :
    t.all (isDigit base) = true := by
  induction h with
  | nil => rfl
  | cons hc _ ih =>
    rw [List.all_cons, ih, hc.isDigit hbase]
    rfl

theorem value_eq_ofDigits (hbase : base ≤ 16) {ds : List Nat}
    (h : List.Forall₂ (Digit base) t ds) : value base t = Nat.ofDigits base ds.reverse := by
  rw [value_eq_foldl, foldl_extend hbase h, Nat.mul_zero, Nat.add_zero]

theorem natural?_eq_some_iff (hbase : base ≤ 16) : natural? base t = some n ↔ Denotes base t n := by
  rw [natural?]
  constructor
  · intro h
    split_ifs at h with ht
    obtain ⟨ds, hds⟩ := exists_digits hbase ht.2
    exact ⟨ht.1, ds, hds, (Option.some.inj h).symm.trans (value_eq_ofDigits hbase hds)⟩
  · rintro ⟨hne, ds, hds, rfl⟩
    rw [if_pos ⟨hne, all_isDigit hbase hds⟩, value_eq_ofDigits hbase hds]

theorem Denotes.isDigit_of_mem (hbase : base ≤ 16) (h : Denotes base t n) {c : Char} (hc : c ∈ t) :
    isDigit base c = true := by
  obtain ⟨-, ds, hds, -⟩ := h
  exact List.all_eq_true.1 (all_isDigit hbase hds) c hc

/-- A plus sign may stand in front of the digits. -/
theorem unsigned?_eq_some_iff (hbase : base ≤ 16) : unsigned? base t = some n ↔
    Denotes base t n ∨ ∃ digits, t = '+' :: digits ∧ Denotes base digits n := by
  constructor
  · intro h
    unfold unsigned? at h
    split at h
    · exact .inr ⟨_, rfl, (natural?_eq_some_iff hbase).1 h⟩
    · exact .inl ((natural?_eq_some_iff hbase).1 h)
  · rintro (h | ⟨digits, rfl, h⟩)
    · exact unsigned?_of_natural? ((natural?_eq_some_iff hbase).2 h)
    · exact (natural?_eq_some_iff hbase).2 h

/-! ## Marks -/

theorem afterHexMark?_eq_some_iff {digits : Text} :
    afterHexMark? t = some digits ↔ ∃ x, (x = 'x' ∨ x = 'X') ∧ t = '0' :: x :: digits := by
  constructor
  · intro h
    unfold afterHexMark? at h
    split at h
    · exact ⟨'x', .inl rfl, by rw [Option.some.inj h]⟩
    · exact ⟨'X', .inr rfl, by rw [Option.some.inj h]⟩
    · contradiction
  · rintro ⟨x, rfl | rfl, rfl⟩ <;> rfl

/-- A mark is followed by hexadecimal digits, and decimal digits hold no mark. -/
theorem represents_iff : Represents t n ↔
    (match afterHexMark? t with
      | some digits => natural? 16 digits
      | none => natural? 10 t) = some n := by
  constructor
  · rintro (h | ⟨hx, h⟩)
    · have hmark : afterHexMark? t = none := by
        rw [Option.eq_none_iff_forall_ne_some]
        intro digits hdigits
        obtain ⟨x, hx, rfl⟩ := afterHexMark?_eq_some_iff.1 hdigits
        have hdigit : isDigit 10 x = true := h.isDigit_of_mem (by decide) (by simp)
        rcases hx with rfl | rfl <;> exact absurd hdigit (by decide)
      rw [hmark]
      exact (natural?_eq_some_iff (by decide)).2 h
    · rw [afterHexMark?_eq_some_iff.2 ⟨_, hx, rfl⟩]
      exact (natural?_eq_some_iff (by decide)).2 h
  · intro h
    cases hmark : afterHexMark? t with
    | none =>
      rw [hmark] at h
      exact .decimal ((natural?_eq_some_iff (by decide)).1 h)
    | some digits =>
      rw [hmark] at h
      obtain ⟨x, hx, rfl⟩ := afterHexMark?_eq_some_iff.1 hmark
      exact .hexadecimal hx ((natural?_eq_some_iff (by decide)).1 h)

/-- Such a number starts with a decimal digit. -/
theorem Represents.exists_cons (h : Represents t n) :
    ∃ c rest, t = c :: rest ∧ isDigit 10 c = true := by
  rcases h with h | ⟨-, -⟩
  · obtain ⟨c, rest, rfl⟩ := List.exists_cons_of_ne_nil h.1
    exact ⟨c, rest, rfl, h.isDigit_of_mem (by decide) List.mem_cons_self⟩
  · exact ⟨'0', _, rfl, by decide⟩

/-! ## Limits -/

/-- Puts a digit behind a number, unless the result is past the limit. -/
def extend? (base limit n : Nat) (c : Char) : Option Nat :=
  ((digit? base c).map fun d => n * base + d).filter (· ≤ limit)

/-- Reads one or more digits, one after the other, and gives up at the first number past the
limit. -/
def bounded? (base limit : Nat) (t : Text) : Option Nat :=
  if t = [] then none else t.foldlM (extend? base limit) 0

theorem le_foldl_extend (hbase : 0 < base) (t : Text) (n : Nat) : n ≤ t.foldl (extend base) n := by
  induction t generalizing n with
  | nil => exact le_rfl
  | cons c t ih =>
    calc n ≤ n * base := Nat.le_mul_of_pos_right n hbase
      _ ≤ extend base n c := Nat.le_add_right _ _
      _ ≤ t.foldl (extend base) (extend base n c) := ih _

/-- The test of every step is the test of the last number, since none is past a later one. -/
theorem foldlM_extend? (hbase : 0 < base) (hn : n ≤ limit) (t : Text) :
    t.foldlM (extend? base limit) n =
      if t.all (isDigit base) = true ∧ t.foldl (extend base) n ≤ limit then
        some (t.foldl (extend base) n) else none := by
  induction t generalizing n with
  | nil => simp [hn]
  | cons c t ih =>
    rw [List.foldlM_cons, List.all_cons, List.foldl_cons, extend?, extend, isDigit]
    cases hc : digit? base c with
    | none => rfl
    | some d =>
      rw [Option.map_some, Option.getD_some, Option.filter_some, Option.isSome_some, Bool.true_and]
      by_cases hle : n * base + d ≤ limit
      · rw [if_pos (decide_eq_true hle)]
        exact ih hle
      · have hpast := le_foldl_extend hbase t (n * base + d)
        rw [if_neg (by simpa using hle), if_neg fun h => hle (hpast.trans h.2)]
        rfl

theorem bounded?_eq_filter (hbase : 0 < base) (limit : Nat) (t : Text) :
    bounded? base limit t = (natural? base t).filter (· ≤ limit) := by
  rw [bounded?, natural?, value_eq_foldl]
  by_cases hne : t = []
  · simp [hne]
  · rw [if_neg hne, foldlM_extend? hbase (Nat.zero_le limit)]
    by_cases hall : t.all (isDigit base) = true
    · simp only [hall, hne, ne_eq, not_false_eq_true, true_and, if_true, Option.filter_some,
        decide_eq_true_eq]
    · simp only [hall, Bool.false_eq_true, and_false, false_and, if_false, Option.filter_none]

end RefHart.Numeral
