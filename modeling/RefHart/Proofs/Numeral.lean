import Mathlib
import RefHart.Assembly.Operand
import RefHart.Isa.Csr

/-!
# Printed numerals

What printing makes of a number is read back as this number: in the decimal and the hexadecimal
digits (`natural?_toDigits`), behind leading zeros (`natural?_hex`), in capitals (`natural?_toUpper`),
as a literal with its sign or its mark (`literal?_signedDecimal`, `literal?_markedHex`), and as the
operand of a CSR access (`Csr.ofToken?_text`).

Reading goes through the digits from the front and printing takes them off at the end, so the
induction is on the quotient by the base.
-/

namespace RefHart

namespace Numeral

/-! ## Digits -/

variable {base : Nat}

theorem digit?_digitChar {d : Nat} (hbase : base ≤ 16) (hd : d < base) :
    digit? base d.digitChar = some d := by
  have hd' : d < 16 := hd.trans_le hbase
  interval_cases d <;> simp [digit?, Nat.digitChar, hd]

theorem isDigit_digitChar {d : Nat} (hbase : base ≤ 16) (hd : d < base) :
    isDigit base d.digitChar = true := by
  rw [isDigit, digit?_digitChar hbase hd, Option.isSome_some]

theorem value_concat (t : Text) (c : Char) :
    value base (t ++ [c]) = value base t * base + (digit? base c).getD 0 := by
  rw [value, List.foldl_append, value]
  rfl

theorem value_toDigits (h : 1 < base) (hbase : base ≤ 16) (n : Nat) :
    value base (Nat.toDigits base n) = n := by
  induction n using Nat.strong_induction_on with
  | _ n ih =>
    rcases Nat.lt_or_ge n base with hlt | hle
    · rw [Nat.toDigits_of_lt_base hlt, ← List.nil_append [n.digitChar], value_concat,
        digit?_digitChar hbase hlt]
      simp [value]
    · have hmod : n % base < base := Nat.mod_lt n (by omega)
      rw [Nat.toDigits_of_base_le h hle, value_concat, ih (n / base) (Nat.div_lt_self (by omega) h),
        digit?_digitChar hbase hmod]
      exact Nat.div_add_mod' n base

theorem exists_digit_of_mem_toDigits (h : 1 < base) {n : Nat} {c : Char}
    (hc : c ∈ Nat.toDigits base n) : ∃ d < base, c = d.digitChar := by
  induction n using Nat.strong_induction_on with
  | _ n ih =>
    rcases Nat.lt_or_ge n base with hlt | hle
    · rw [Nat.toDigits_of_lt_base hlt, List.mem_singleton] at hc
      exact ⟨n, hlt, hc⟩
    · rw [Nat.toDigits_of_base_le h hle, List.mem_append, List.mem_singleton] at hc
      rcases hc with hc | hc
      · exact ih (n / base) (Nat.div_lt_self (by omega) h) hc
      · exact ⟨n % base, Nat.mod_lt n (by omega), hc⟩

theorem isDigit_of_mem_toDigits (h : 1 < base) (hbase : base ≤ 16) {n : Nat} {c : Char}
    (hc : c ∈ Nat.toDigits base n) : isDigit base c = true := by
  obtain ⟨d, hd, rfl⟩ := exists_digit_of_mem_toDigits h hc
  exact isDigit_digitChar hbase hd

theorem toDigits_ne_nil (h : 1 < base) (n : Nat) : Nat.toDigits base n ≠ [] := by
  rcases Nat.lt_or_ge n base with hlt | hle
  · rw [Nat.toDigits_of_lt_base hlt]
    exact List.cons_ne_nil _ _
  · rw [Nat.toDigits_of_base_le h hle]
    exact List.concat_ne_nil _ _

/-- The digits of a number are read back as the number. -/
theorem natural?_toDigits (h : 1 < base) (hbase : base ≤ 16) (n : Nat) :
    natural? base (Nat.toDigits base n) = some n := by
  have hall : (Nat.toDigits base n).all (isDigit base) = true :=
    List.all_eq_true.2 fun _ => isDigit_of_mem_toDigits h hbase
  rw [natural?, if_pos ⟨toDigits_ne_nil h n, hall⟩, value_toDigits h hbase]

theorem natural?_decimal (n : Nat) : natural? 10 (decimal n) = some n :=
  natural?_toDigits (by decide) (by decide) n

theorem value_leftpad (hbase : base ≤ 16) (width : Nat) (t : Text) :
    value base (t.leftpad width '0') = value base t := by
  rw [List.leftpad]
  induction width - t.length with
  | zero => rfl
  | succ k ih =>
    have hzero : (digit? base '0').getD 0 = 0 := by
      rcases Nat.eq_zero_or_pos base with rfl | hpos
      · rfl
      · exact congrArg (·.getD 0) (digit?_digitChar hbase hpos)
    have hstep : 0 * base + (digit? base '0').getD 0 = 0 := by rw [hzero, Nat.zero_mul]
    rw [List.replicate_succ, List.cons_append, value, List.foldl_cons, hstep]
    exact ih

theorem hex_ne_nil (width n : Nat) : hex width n ≠ [] := by
  rw [hex, List.leftpad]
  exact List.append_ne_nil_of_right_ne_nil _ (toDigits_ne_nil (by decide) n)

theorem exists_digit_of_mem_hex {width n : Nat} {c : Char} (hc : c ∈ hex width n) :
    ∃ d < 16, c = d.digitChar := by
  rw [hex, List.leftpad, List.mem_append] at hc
  rcases hc with hc | hc
  · exact ⟨0, by decide, List.eq_of_mem_replicate hc⟩
  · exact exists_digit_of_mem_toDigits (by decide) hc

/-- Leading zeros do not change what a numeral denotes. -/
theorem natural?_hex (width n : Nat) : natural? 16 (hex width n) = some n := by
  have hall : (hex width n).all (isDigit 16) = true := by
    rw [List.all_eq_true]
    intro c hc
    obtain ⟨d, hd, rfl⟩ := exists_digit_of_mem_hex hc
    exact isDigit_digitChar (by decide) hd
  rw [natural?, if_pos ⟨hex_ne_nil width n, hall⟩, hex, value_leftpad (by decide),
    value_toDigits (by decide) (by decide)]

/-- The letter case of a digit does not matter. -/
theorem digit?_toUpper (base : Nat) (c : Char) : digit? base c.toUpper = digit? base c := by
  by_cases h : 'a'.val ≤ c.val ∧ c.val ≤ 'z'.val
  · have hmin : 97 ≤ c.toNat := UInt32.le_iff_toNat_le.1 h.1
    have hmax : c.toNat ≤ 122 := UInt32.le_iff_toNat_le.1 h.2
    rw [← Char.ofNat_toNat c]
    interval_cases c.toNat <;> rfl
  · rw [Char.toUpper, dif_neg h]

theorem digit?_toLower (base : Nat) (c : Char) : digit? base c.toLower = digit? base c := by
  by_cases h : 'A'.val ≤ c.val ∧ c.val ≤ 'Z'.val
  · have hmin : 65 ≤ c.toNat := UInt32.le_iff_toNat_le.1 h.1
    have hmax : c.toNat ≤ 90 := UInt32.le_iff_toNat_le.1 h.2
    rw [← Char.ofNat_toNat c]
    interval_cases c.toNat <;> rfl
  · rw [Char.toLower, dif_neg h]

theorem natural?_map {f : Char → Char} (hf : ∀ c, digit? base (f c) = digit? base c) (t : Text) :
    natural? base (t.map f) = natural? base t := by
  have hvalue : value base (t.map f) = value base t := by
    simp only [value, List.foldl_map, hf]
  have hdigit : isDigit base ∘ f = isDigit base := funext fun c => congrArg Option.isSome (hf c)
  have hall : (t.map f).all (isDigit base) = t.all (isDigit base) := by rw [List.all_map, hdigit]
  simp only [natural?, hvalue, hall, ne_eq, List.map_eq_nil_iff]

theorem natural?_toUpper (base : Nat) (t : Text) : natural? base t.toUpper = natural? base t :=
  natural?_map (digit?_toUpper base) t

theorem natural?_toLower (base : Nat) (t : Text) : natural? base t.toLower = natural? base t :=
  natural?_map (digit?_toLower base) t

/-- No digit is a plus sign. -/
theorem unsigned?_of_natural? {t : Text} {n : Nat} (h : natural? base t = some n) :
    unsigned? base t = some n := by
  unfold unsigned?
  split
  · rw [natural?, if_neg] at h
    · contradiction
    · rintro ⟨-, hall⟩
      exact absurd (List.all_eq_true.1 hall '+' List.mem_cons_self) (by simp [isDigit, digit?])
  · exact h

end Numeral

/-! ## Literals -/

namespace Operand

open Numeral

theorem afterHexMark?_of_all_isDigit {t : Text} (h : ∀ c ∈ t, isDigit 10 c = true) :
    afterHexMark? t = none := by
  unfold afterHexMark?
  split
  · exact absurd (h 'x' (by simp)) (by decide)
  · exact absurd (h 'X' (by simp)) (by decide)
  · rfl

theorem magnitude?_decimal {n : Nat} (h : n ≤ maxMagnitude) : magnitude? (decimal n) = some n := by
  have hmark : afterHexMark? (decimal n) = none :=
    afterHexMark?_of_all_isDigit fun _ => isDigit_of_mem_toDigits (by decide) (by decide)
  rw [magnitude?, hmark]
  dsimp only
  rw [natural?_decimal, Option.filter_some, if_pos (decide_eq_true h)]

/-- A magnitude without a sign is a literal. -/
theorem literal?_of_magnitude? {t : Text} {n : Nat} (h : magnitude? t = some n) :
    literal? t = some (n : Int) := by
  have hsign {c : Char} {body : Text} (hdigit : isDigit 10 c = false)
      (hmark : afterHexMark? (c :: body) = none) : magnitude? (c :: body) = none := by
    rw [magnitude?, hmark]
    simp [natural?, hdigit]
  unfold literal?
  split
  · rw [hsign (by decide) rfl] at h
    contradiction
  · rw [hsign (by decide) rfl] at h
    contradiction
  · rw [h]
    rfl

theorem literal?_decimal {n : Nat} (h : n ≤ maxMagnitude) : literal? (decimal n) = some (n : Int) :=
  literal?_of_magnitude? (magnitude?_decimal h)

/-- A printed integer is a literal that denotes it. -/
theorem literal?_signedDecimal {i : Int} (h : i.natAbs ≤ maxMagnitude) :
    literal? (signedDecimal i) = some i := by
  rw [signedDecimal]
  split_ifs with hneg
  · have habs : -(i.natAbs : Int) = i := by omega
    rw [literal?, magnitude?_decimal h]
    exact congrArg some habs
  · rw [literal?_decimal h, Int.natAbs_of_nonneg (by omega)]

/-- So is a number in marked hexadecimal. -/
theorem literal?_markedHex (width : Nat) {n : Nat} (h : n ≤ maxMagnitude) :
    literal? (markedHex width n) = some (n : Int) := by
  have hmark : afterHexMark? (markedHex width n) = some (hex width n) := rfl
  apply literal?_of_magnitude?
  rw [magnitude?, hmark]
  dsimp only
  rw [natural?_hex, Option.filter_some, if_pos (decide_eq_true h)]

end Operand

/-! ## CSRs -/

namespace Csr

/-- No name starts as a number does. -/
theorem ofName?_markedHex (width n : Nat) : ofName? (Numeral.markedHex width n) = none := by
  have hhead : ∀ entry ∈ named, entry.1.head? ≠ some '0' := by decide
  rw [ofName?, Option.map_eq_none_iff, List.find?_eq_none]
  intro entry hentry heq
  apply hhead entry hentry
  rw [eq_of_beq heq]
  rfl

theorem ofToken?_markedHex (width : Nat) {n : Nat} (h : n < 4096) :
    ofToken? (Numeral.markedHex width n) = some n := by
  have hmark : Numeral.afterHexMark? (Numeral.markedHex width n) = some (Numeral.hex width n) := rfl
  rw [ofToken?, ofName?_markedHex]
  dsimp only
  rw [number?, hmark]
  dsimp only
  rw [Numeral.natural?_hex, Option.filter_some, if_pos (decide_eq_true (by omega))]

theorem ofToken?_of_name? {address : Nat} {name : Text} (h : name? address = some name) :
    ofToken? name = some address := by
  have hnamed : ∀ entry ∈ named, ofToken? entry.1 = some entry.2 := by decide
  obtain ⟨entry, hentry, rfl⟩ := Option.map_eq_some_iff.1 h
  have hfound := List.find?_some hentry
  have haddress : entry.2 = address := eq_of_beq hfound
  rw [hnamed entry (List.mem_of_find?_eq_some hentry), haddress]

/-- The text of a CSR operand denotes its address. -/
theorem ofToken?_text {address : Nat} (h : address < 4096) :
    ofToken? (text address) = some address := by
  rw [text]
  cases hname : name? address with
  | some name => exact ofToken?_of_name? hname
  | none => exact ofToken?_markedHex 3 h

end Csr

end RefHart
