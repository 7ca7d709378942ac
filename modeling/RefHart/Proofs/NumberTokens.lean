import Mathlib
import RefHart.Proofs.Denotation
import RefHart.Proofs.Listing

/-!
# Literals and CSR operands

**Literals (`literal_grammar`).** A literal is an optional sign before a number in decimal or marked
hexadecimal digits of at most 63 bits; every other text is none. The value is an integer, but machine
words are enough for it: the reading that keeps the number in a signed word of 64 bits and gives up
where a product, a sum or the negation leaves the range (`checkedLiteral?`) has the same result for
every text. It only ever gives up for numbers past the limit, since a magnitude that was read can be
negated.

**CSR operands (`address_grammar`).** The operand of a CSR access is a name in any letter case or a
number without a sign of at most twelve bits. The names and the numbers do not overlap, so that
either may be looked at first. What disassembly prints for a CSR access is read as the address in
the word.
-/

namespace RefHart

open Numeral (Represents)

/-! ## Literals -/

namespace Operand

variable {t body : Text} {m : Nat} {v : Int}

/-- A number of at most 63 bits with the value that its sign gives it. -/
inductive Literal : Text → Int → Prop
  | unsigned {body : Text} {m : Nat} (h : Represents body m) (hm : m ≤ 2 ^ 63 - 1) : Literal body m
  | plus {body : Text} {m : Nat} (h : Represents body m) (hm : m ≤ 2 ^ 63 - 1) :
      Literal ('+' :: body) m
  | minus {body : Text} {m : Nat} (h : Represents body m) (hm : m ≤ 2 ^ 63 - 1) :
      Literal ('-' :: body) (-m)

theorem magnitude?_eq_some_iff : magnitude? body = some m ↔ Represents body m ∧ m ≤ 2 ^ 63 - 1 := by
  rw [magnitude?, Option.filter_eq_some_iff, Numeral.represents_iff, decide_eq_true_iff]
  rfl

/-- The magnitude of a literal as an integer. -/
theorem cast_magnitude? (body : Text) : (do let m ← magnitude? body; pure (m : Int)) =
    (magnitude? body).map fun m : Nat => (m : Int) := by
  cases magnitude? body <;> rfl

theorem literal?_eq_some_iff : literal? t = some v ↔ Literal t v := by
  constructor
  · intro h
    unfold literal? at h
    split at h <;> rw [cast_magnitude?, Option.map_map] at h <;>
      obtain ⟨m, hm, rfl⟩ := Option.map_eq_some_iff.1 h <;>
      obtain ⟨hrepresents, hle⟩ := magnitude?_eq_some_iff.1 hm
    · exact .minus hrepresents hle
    · exact .plus hrepresents hle
    · exact .unsigned hrepresents hle
  · rintro (⟨h, hm⟩ | ⟨h, hm⟩ | ⟨h, hm⟩) <;> have hmagnitude := magnitude?_eq_some_iff.2 ⟨h, hm⟩
    · exact literal?_of_magnitude? hmagnitude
    · rw [literal?, hmagnitude]
      rfl
    · rw [literal?, hmagnitude]
      rfl

/-! ## Literals in machine words -/

/-- Puts a digit behind a signed word, unless the product or the sum leaves the range. -/
def checkedExtend? (base : Nat) (w : BitVec 64) (c : Char) : Option (BitVec 64) :=
  (Numeral.digit? base c).bind fun d =>
    let shifted := w * BitVec.ofNat 64 base
    if w.smulOverflow (BitVec.ofNat 64 base) || shifted.saddOverflow (BitVec.ofNat 64 d) then none
    else some (shifted + BitVec.ofNat 64 d)

/-- Reads one or more digits into a signed word. -/
def checkedNatural? (base : Nat) (t : Text) : Option (BitVec 64) :=
  if t = [] then none else t.foldlM (checkedExtend? base) 0

/-- Reads a magnitude into a signed word. -/
def checkedMagnitude? (body : Text) : Option (BitVec 64) :=
  match Numeral.afterHexMark? body with
  | some digits => checkedNatural? 16 digits
  | none => checkedNatural? 10 body

/-- The negation of a signed word, unless it leaves the range. -/
def checkedNeg? (w : BitVec 64) : Option (BitVec 64) := if w.negOverflow then none else some (-w)

/-- Reads a literal into a signed word. -/
def checkedLiteral? : Text → Option (BitVec 64)
  | '-' :: body => (checkedMagnitude? body).bind checkedNeg?
  | '+' :: body => checkedMagnitude? body
  | body => checkedMagnitude? body

theorem toInt_ofNat_of_le {n : Nat} (h : n ≤ maxMagnitude) : (BitVec.ofNat 64 n).toInt = n := by
  rw [maxMagnitude] at h
  rw [BitVec.toInt_eq_toNat_of_lt] <;> rw [BitVec.toNat_ofNat] <;> omega

/-- A product or a sum leaves the range exactly if the result is past the limit. -/
theorem overflow_iff {n base d : Nat} (hn : n ≤ maxMagnitude) (hbase : base ≤ maxMagnitude)
    (hd : d ≤ maxMagnitude) :
    ((BitVec.ofNat 64 n).smulOverflow (BitVec.ofNat 64 base) ||
      (BitVec.ofNat 64 (n * base)).saddOverflow (BitVec.ofNat 64 d)) = true ↔
      maxMagnitude < n * base + d := by
  have hlimit : (2 : Int) ^ (64 - 1) = maxMagnitude + 1 := by decide
  simp only [BitVec.smulOverflow, BitVec.saddOverflow, toInt_ofNat_of_le hn,
    toInt_ofNat_of_le hbase, toInt_ofNat_of_le hd, ← Nat.cast_mul, hlimit, Bool.or_eq_true, decide_eq_true_eq]
  by_cases hproduct : n * base ≤ maxMagnitude
  · rw [toInt_ofNat_of_le hproduct]
    omega
  · omega

/-- A step in machine words is the step under the limit. -/
theorem checkedExtend?_ofNat {base n : Nat} (hbase : base ≤ 16) (hn : n ≤ maxMagnitude) (c : Char) :
    checkedExtend? base (BitVec.ofNat 64 n) c =
      (Numeral.extend? base maxMagnitude n c).map (BitVec.ofNat 64) := by
  rw [checkedExtend?, Numeral.extend?]
  cases hc : Numeral.digit? base c with
  | none => rfl
  | some d =>
    have hmax : 16 ≤ maxMagnitude := by decide
    have hd : d < base := ((Numeral.digit?_eq_some_iff hbase).1 hc).1
    have hoverflow := overflow_iff hn (show base ≤ maxMagnitude by omega)
      (show d ≤ maxMagnitude by omega)
    rw [Option.bind_some, Option.map_some, Option.filter_some]
    dsimp only
    rw [BitVec.ofNat_mul_ofNat, BitVec.ofNat_add_ofNat]
    by_cases hle : n * base + d ≤ maxMagnitude
    · rw [if_neg fun h => absurd (hoverflow.1 h) (by omega), if_pos (decide_eq_true hle)]
      rfl
    · rw [if_pos (hoverflow.2 (by omega)), if_neg (by simpa using hle)]
      rfl

theorem foldlM_checkedExtend? {base n : Nat} (hbase : base ≤ 16) (hn : n ≤ maxMagnitude)
    (t : Text) :
    t.foldlM (checkedExtend? base) (BitVec.ofNat 64 n) =
      (t.foldlM (Numeral.extend? base maxMagnitude) n).map (BitVec.ofNat 64) := by
  induction t generalizing n with
  | nil => rfl
  | cons c t ih =>
    rw [List.foldlM_cons, List.foldlM_cons, checkedExtend?_ofNat hbase hn]
    cases hstep : Numeral.extend? base maxMagnitude n c with
    | none => rfl
    | some next =>
      obtain ⟨-, hnext⟩ := Option.filter_eq_some_iff.1 hstep
      exact ih (of_decide_eq_true hnext)

theorem checkedNatural?_eq_map {base : Nat} (hpos : 0 < base) (hbase : base ≤ 16) (t : Text) :
    checkedNatural? base t =
      ((Numeral.natural? base t).filter (· ≤ maxMagnitude)).map (BitVec.ofNat 64) := by
  rw [← Numeral.bounded?_eq_filter hpos, checkedNatural?, Numeral.bounded?]
  by_cases hne : t = []
  · rw [if_pos hne, if_pos hne]
    rfl
  · rw [if_neg hne, if_neg hne]
    exact foldlM_checkedExtend? hbase (Nat.zero_le _) t

theorem checkedMagnitude?_eq_map (body : Text) :
    checkedMagnitude? body = (magnitude? body).map (BitVec.ofNat 64) := by
  rw [checkedMagnitude?, magnitude?]
  cases Numeral.afterHexMark? body with
  | none => exact checkedNatural?_eq_map (by decide) (by decide) body
  | some digits => exact checkedNatural?_eq_map (by decide) (by decide) digits

theorem map_toInt_checkedMagnitude? (body : Text) :
    (checkedMagnitude? body).map BitVec.toInt = (magnitude? body).map fun m : Nat => (m : Int) := by
  rw [checkedMagnitude?_eq_map]
  cases hm : magnitude? body with
  | none => rfl
  | some m => exact congrArg some (toInt_ofNat_of_le (magnitude?_eq_some_iff.1 hm).2)

/-- A magnitude that was read can be negated. -/
theorem negOverflow_of_checkedMagnitude? {w : BitVec 64} (h : checkedMagnitude? body = some w) :
    w.negOverflow = false := by
  rw [checkedMagnitude?_eq_map] at h
  obtain ⟨m, hm, rfl⟩ := Option.map_eq_some_iff.1 h
  rw [BitVec.negOverflow, toInt_ofNat_of_le (magnitude?_eq_some_iff.1 hm).2]
  exact beq_eq_false_iff_ne.2 (by omega)

theorem map_toInt_checkedNeg? (body : Text) :
    ((checkedMagnitude? body).bind checkedNeg?).map BitVec.toInt =
      (magnitude? body).map fun m : Nat => -(m : Int) := by
  have hneg := congrArg (Option.map fun v : Int => -v) (map_toInt_checkedMagnitude? body)
  rw [Option.map_map, Option.map_map] at hneg
  cases hw : checkedMagnitude? body with
  | none =>
    rw [hw] at hneg
    exact hneg
  | some w =>
    have hover := negOverflow_of_checkedMagnitude? hw
    rw [hw] at hneg
    rw [Option.bind_some, checkedNeg?, if_neg (by rw [hover]; decide), Option.map_some,
      BitVec.toInt_neg_of_not_negOverflow (by rw [hover]; decide)]
    exact hneg

/-- Words of 64 bits are enough for a literal. -/
theorem map_toInt_checkedLiteral? (t : Text) :
    (checkedLiteral? t).map BitVec.toInt = literal? t := by
  unfold literal?
  split <;> rw [cast_magnitude?, Option.map_map]
  · rw [checkedLiteral?]
    exact map_toInt_checkedNeg? _
  · rw [checkedLiteral?]
    exact map_toInt_checkedMagnitude? _
  · rw [checkedLiteral?]
    · exact map_toInt_checkedMagnitude? _
    · assumption
    · assumption

/-- A token is read as a number exactly by the grammar of literals, and no step of the reading
overflows. -/
theorem literal_grammar :
    (∀ t v, literal? t = some v ↔ Literal t v) ∧
      (∀ t, (checkedLiteral? t).map BitVec.toInt = literal? t) ∧
      ∀ body, (checkedMagnitude? body).all (!·.negOverflow) = true := by
  refine ⟨fun t v => literal?_eq_some_iff, map_toInt_checkedLiteral?, fun body => ?_⟩
  rw [Option.all_eq_true]
  intro w hw
  rw [negOverflow_of_checkedMagnitude? hw]
  rfl

/-- The least signed word of 64 bits is no literal: its magnitude is past the limit. -/
example : literal? "-0x8000000000000000" = none := by decide +kernel

end Operand

/-! ## CSR operands -/

namespace Csr

variable {t : Text} {a : Nat}

/-- A name of a CSR in any letter case, or a number without a sign of at most twelve bits. -/
inductive Token : Text → Nat → Prop
  | name {t : Text} {entry : Text × Nat} (hentry : entry ∈ named)
      (h : t.toLower = Text.toLower entry.1) : Token t entry.2
  | number {t : Text} {a : Nat} (h : Represents t a) (ha : a ≤ 0xFFF) : Token t a

theorem number?_eq_some_iff : number? t = some a ↔ Represents t a := Numeral.represents_iff.symm

theorem ofName?_eq_some_iff : ofName? t = some a ↔ ∃ entry ∈ named,
    t.toLower = Text.toLower entry.1 ∧ entry.2 = a := by
  have hlower : ∀ entry ∈ named, Text.toLower entry.1 = entry.1 := by decide
  have hunique : ∀ entry ∈ named, ∀ entry' ∈ named, entry.1 = entry'.1 → entry = entry' := by decide
  rw [ofName?]
  constructor
  · intro h
    obtain ⟨entry, hfound, rfl⟩ := Option.map_eq_some_iff.1 h
    have hentry := List.mem_of_find?_eq_some hfound
    have hname : entry.1 = t.toLower := eq_of_beq (List.find?_some hfound :)
    exact ⟨entry, hentry, by rw [hlower entry hentry, hname], rfl⟩
  · rintro ⟨entry, hentry, hname, rfl⟩
    rw [hlower entry hentry] at hname
    cases hfound : named.find? fun entry => entry.1 == t.toLower with
    | none => exact absurd (beq_iff_eq.2 hname.symm) (List.find?_eq_none.1 hfound entry hentry)
    | some entry' =>
      have hname' : entry'.1 = t.toLower := eq_of_beq (List.find?_some hfound :)
      rw [hunique entry' (List.mem_of_find?_eq_some hfound) entry hentry (hname'.trans hname),
        Option.map_some]

/-- No name starts as a number does. -/
theorem number?_of_ofName? {n : Nat} (h : ofName? t = some n) : number? t = none := by
  have hhead : ∀ entry ∈ named, (Text.toLower entry.1).head?.bind (Numeral.digit? 10) = none := by
    decide
  obtain ⟨entry, hentry, hname, -⟩ := ofName?_eq_some_iff.1 h
  rw [Option.eq_none_iff_forall_ne_some]
  intro m hm
  obtain ⟨c, rest, rfl, hdigit⟩ := (number?_eq_some_iff.1 hm).exists_cons
  have hnone : Numeral.digit? 10 c.toLower = none := by
    have hentryNone := hhead entry hentry
    rw [← hname] at hentryNone
    exact hentryNone
  rw [Numeral.isDigit, ← Numeral.digit?_toLower, hnone] at hdigit
  contradiction

theorem ofToken?_eq_some_iff : ofToken? t = some a ↔ Token t a := by
  rw [ofToken?]
  constructor
  · intro h
    cases hname : ofName? t with
    | some n =>
      rw [hname] at h
      obtain rfl := Option.some.inj h
      obtain ⟨entry, hentry, hlower, rfl⟩ := ofName?_eq_some_iff.1 hname
      exact .name hentry hlower
    | none =>
      rw [hname] at h
      obtain ⟨hnumber, hle⟩ := Option.filter_eq_some_iff.1 h
      exact .number (number?_eq_some_iff.1 hnumber) (of_decide_eq_true hle)
  · rintro (⟨hentry, hlower⟩ | ⟨hnumber, hle⟩)
    · rw [ofName?_eq_some_iff.2 ⟨_, hentry, hlower, rfl⟩]
    · have hread := number?_eq_some_iff.2 hnumber
      cases hname : ofName? t with
      | some n =>
        rw [number?_of_ofName? hname] at hread
        contradiction
      | none =>
        dsimp only
        rw [hread, Option.filter_some, if_pos (decide_eq_true hle)]

/-! ## Printed CSR operands -/

section Printed

open Instruction (decode field)

variable {w : Word} {op : Mnemonic}

theorem ofToken?_text_raw (w : Word) : ofToken? (text (w >>> 20).toNat) = some (field w 31 20) := by
  have haddress : (w >>> 20).toNat = field w 31 20 := by
    rw [Instruction.field_eq w (by decide), BitVec.toNat_ushiftRight, Nat.shiftRight_eq_div_pow]
    omega
  rw [haddress, ofToken?_text (Instruction.field_lt w 31 20 (by decide))]

theorem exists_tokens_text (h : (decode w).op = some op) (hformat : op.format ∈ [.csr, .csrImm]) :
    ∃ rd operand last, Text.tokens (decode w).text = [op.name, rd, operand, last] ∧
      ofToken? operand = some (field w 31 20) := by
  have hremark : Instruction.remark op w = [] := by
    rw [Instruction.remark, if_neg]
    rintro ⟨rfl, -⟩
    exact absurd hformat (by decide)
  rw [Instruction.text_eq h, hremark, List.append_nil, Instruction.tokens_code]
  rcases List.mem_pair.1 hformat with hf | hf <;> rw [hf]
  · exact ⟨_, _, _, rfl, ofToken?_text_raw w⟩
  · exact ⟨_, _, _, rfl, ofToken?_text_raw w⟩

/-- A token is read as an address exactly by the grammar of CSR operands, and the one that is
printed for a word is read back. -/
theorem address_grammar :
    (∀ t a, ofToken? t = some a ↔ Token t a) ∧
      ∀ w op, (decode w).op = some op → op.format ∈ [.csr, .csrImm] →
        ∃ rd operand last, Text.tokens (decode w).text = [op.name, rd, operand, last] ∧
          ofToken? operand = some (field w 31 20) :=
  ⟨fun _ _ => ofToken?_eq_some_iff, fun _ _ => exists_tokens_text⟩

/-- An address without a name, in an access that writes a number. -/
theorem address_grammar_csrrwi :
    (decode 0x7C02D1F3).op = some .csrrwi ∧
      Text.tokens (decode 0x7C02D1F3).text = ["csrrwi", "x3", "0x7c0", "5"] ∧
      ofToken? "0x7c0" = some (field 0x7C02D1F3 31 20) := by
  have hop : (decode 0x7C02D1F3).op = some .csrrwi := by decide
  have hprinted : Text.tokens (decode 0x7C02D1F3).text = ["csrrwi", "x3", "0x7c0", "5"] := by
    decide +kernel
  obtain ⟨rd, operand, last, htokens, hread⟩ := address_grammar.2 _ _ hop (by decide)
  rw [hprinted] at htokens
  obtain ⟨-, -, rfl, -⟩ : _ ∧ _ ∧ ("0x7c0" : Text) = operand ∧ _ := by simpa using htokens
  exact ⟨hop, hprinted, hread⟩

end Printed

end Csr

end RefHart
