import Mathlib
import RefHart.Proofs.Word

/-!
# Sign extension and masking

**Theorem (`extendSign_mask_laws`).** At every width from 1 to 32, masking and extending the sign undo
each other: on the numbers that two's complement has at that width, and on the residues of words.
Masking gives the residue of an integer modulo `2 ^ width`, extending its sign the one representative
between `-2 ^ (width - 1)` and `2 ^ (width - 1)`. Taking out bits is division and remainder.

The shifts behind the three operations are total here. That none of them is ever by 32 or more is said
with shifts that trap, and with differences that trap where they would be negative: written with these,
the operations still give their results, and outside the widths from 1 to 32 they trap
(`extendSign?_eq`, `mask?_eq`).

Both directions come from the balanced remainder `Int.bmod`: it is what extending the sign computes, and
`eq_bmod_two_pow_iff` says which integer it is.
-/

namespace RefHart.Word

variable {width hi lo : Nat}

/-! ## Representatives -/

/-- The balanced remainder is the representative in the range of two's complement. -/
theorem eq_bmod_two_pow_iff (h : 0 < width) (v r : Int) :
    r = v.bmod (2 ^ width) ↔
      -2 ^ (width - 1) ≤ r ∧ r < 2 ^ (width - 1) ∧ r % 2 ^ width = v % 2 ^ width := by
  obtain ⟨k, rfl⟩ := Nat.exists_eq_add_one_of_ne_zero h.ne'
  have hdouble : (2 : Int) ^ (k + 1) = 2 * 2 ^ k := by rw [pow_succ, mul_comm]
  have hhalf : (2 * 2 ^ k : Int) / 2 = 2 ^ k := by omega
  have hhalf' : (2 * 2 ^ k + 1 : Int) / 2 = 2 ^ k := by omega
  rw [eq_comm, Int.bmod_eq_iff (by positivity), Int.emod_eq_emod_iff_emod_sub_eq_zero,
    ← Int.dvd_iff_emod_eq_zero]
  push_cast
  rw [hdouble, hhalf, hhalf']

/-- Extending the sign of a masked number picks its representative. -/
theorem toInt_extendSign_mask (v : Int) (h : 0 < width) (h' : width ≤ 32) :
    (extendSign (mask v width) width).toInt = v.bmod (2 ^ width) := by
  have hresidue : ((mask v width).toNat : Int) = v % (2 ^ width : Nat) := by
    rw [toNat_mask v width h']
    push_cast
    rfl
  rw [toInt_extendSign _ h h', hresidue, Int.emod_bmod]

/-- Masking a number whose sign was extended leaves the residue of the word. -/
theorem toNat_mask_extendSign (u : Word) (h : 0 < width) (h' : width ≤ 32) :
    (mask (extendSign u width).toInt width).toNat = u.toNat % 2 ^ width := by
  have hresidue : (u.toNat : Int).bmod (2 ^ width) % (2 ^ width : Nat) = u.toNat % (2 ^ width : Nat) :=
    Int.bmod_emod
  apply Int.natCast_inj.1
  rw [toNat_mask _ width h', toInt_extendSign u h h', Int.natCast_emod, ← hresidue]
  push_cast
  rfl

/-! ## Operators that trap -/

/-- A difference that traps where it would be negative. -/
def difference? (a b : Nat) : Option Nat := if b ≤ a then some (a - b) else none

/-- A shift that traps on an amount of 32 or more. -/
def shift? (shift : Word → Nat → Word) (v : Word) (amount : Nat) : Option Word :=
  if amount < 32 then some (shift v amount) else none

/-- The lowest bits, written with operators that trap. -/
def ones? (width : Nat) : Option Word :=
  (difference? 32 width).bind (shift? (· >>> ·) (BitVec.allOnes 32))

/-- Taking out bits, written with operators that trap. -/
def bits? (v : Word) (hi lo : Nat) : Option Word := do
  let moved ← shift? (· >>> ·) v lo
  let last ← difference? hi lo
  return moved &&& (← ones? (last + 1))

/-- Extending the sign, written with operators that trap. -/
def extendSign? (v : Word) (width : Nat) : Option Word := do
  let unused ← difference? 32 width
  let moved ← shift? (· <<< ·) v unused
  shift? BitVec.sshiftRight moved unused

/-- Masking, written with operators that trap. -/
def mask? (v : Int) (width : Nat) : Option Word := do
  return BitVec.ofInt 32 v &&& (← ones? width)

/-- All that traps is a width that is not from 1 to 32. -/
theorem extendSign?_eq (v : Word) (width : Nat) :
    extendSign? v width =
      if 0 < width ∧ width ≤ 32 then some (extendSign v width) else none := by
  by_cases hle : width ≤ 32
  · have hunused : difference? 32 width = some (32 - width) := if_pos hle
    simp only [extendSign?, hunused, shift?, extendSign, Option.bind_eq_bind, Option.bind_some]
    split_ifs <;> first | rfl | omega
  · have hunused : difference? 32 width = none := if_neg hle
    rw [extendSign?, hunused, if_neg fun h => hle h.2]
    rfl

theorem ones?_eq (width : Nat) :
    ones? width = if 0 < width ∧ width ≤ 32 then some (ones width) else none := by
  by_cases hle : width ≤ 32
  · have hunused : difference? 32 width = some (32 - width) := if_pos hle
    rw [ones?, hunused, Option.bind_some, shift?, ones]
    split_ifs <;> first | rfl | omega
  · have hunused : difference? 32 width = none := if_neg hle
    rw [ones?, hunused, if_neg fun h => hle h.2]
    rfl

theorem mask?_eq (v : Int) (width : Nat) :
    mask? v width = if 0 < width ∧ width ≤ 32 then some (mask v width) else none := by
  rw [mask?, ones?_eq]
  split_ifs <;> rfl

theorem bits?_of_le (v : Word) (hlo : lo ≤ hi) (hhi : hi ≤ 31) :
    bits? v hi lo = some (v.bits hi lo) := by
  have hmoved : shift? (· >>> ·) v lo = some (v >>> lo) := if_pos (by omega)
  have hlast : difference? hi lo = some (hi - lo) := if_pos hlo
  have hones : ones? (hi - lo + 1) = some (ones (hi - lo + 1)) := by
    rw [ones?_eq, if_pos (by omega)]
  simp only [bits?, hmoved, hlast, hones, Option.bind_eq_bind, Option.bind_some]
  rfl

/-! ## Both directions -/

/-- Sign extension and masking undo each other up to the width, and none of their shifts is too
large. -/
theorem extendSign_mask_laws :
    (∀ width, 0 < width → width ≤ 32 →
      (∀ v : Int, -2 ^ (width - 1) ≤ v → v < 2 ^ (width - 1) →
        (extendSign (mask v width) width).toInt = v) ∧
      (∀ v : Int, ((mask v width).toNat : Int) = v % 2 ^ width ∧
        ∀ r : Int, r = (extendSign (mask v width) width).toInt ↔
          -2 ^ (width - 1) ≤ r ∧ r < 2 ^ (width - 1) ∧ r % 2 ^ width = v % 2 ^ width) ∧
      (∀ u : Word, (mask (extendSign u width).toInt width).toNat = u.toNat % 2 ^ width) ∧
      (∀ v : Int, mask? v width = some (mask v width)) ∧
      ∀ u : Word, extendSign? u width = some (extendSign u width)) ∧
    ∀ hi lo, lo ≤ hi → hi ≤ 31 → ∀ v : Word,
      (v.bits hi lo).toNat = v.toNat / 2 ^ lo % 2 ^ (hi - lo + 1) ∧
        bits? v hi lo = some (v.bits hi lo) := by
  refine ⟨fun width h h' => ⟨?_, ?_, ?_, ?_, ?_⟩, fun hi lo hlo hhi v => ⟨?_, ?_⟩⟩
  · intro v hmin hmax
    rw [toInt_extendSign_mask v h h']
    exact ((eq_bmod_two_pow_iff h v v).2 ⟨hmin, hmax, rfl⟩).symm
  · intro v
    refine ⟨toNat_mask v width h', fun r => ?_⟩
    rw [toInt_extendSign_mask v h h', eq_bmod_two_pow_iff h]
  · intro u
    exact toNat_mask_extendSign u h h'
  · intro v
    rw [mask?_eq, if_pos ⟨h, h'⟩]
  · intro u
    rw [extendSign?_eq, if_pos ⟨h, h'⟩]
  · exact toNat_bits v (by omega)
  · exact bits?_of_le v hlo hhi

/-- The largest width, where nothing is shifted, and the smallest, where every number is 0 or -1. -/
theorem extendSign_mask_laws_extremes :
    (extendSign (mask (-2 ^ 31) 32) 32).toInt = -2 ^ 31 ∧
      (mask (-3) 1).toNat = 1 ∧ (extendSign (mask (-3) 1) 1).toInt = -1 ∧
      mask? (-3) 1 = some 1 ∧ bits? 0xFE000000 31 25 = some 0x7F := by
  have hword := (extendSign_mask_laws.1 32 (by decide) le_rfl).1 (-2 ^ 31) (by decide) (by decide)
  obtain ⟨-, hresidue, -, hmask, -⟩ := extendSign_mask_laws.1 1 (by decide) (by decide)
  have hbits := (extendSign_mask_laws.2 31 25 (by decide) le_rfl 0xFE000000).2
  refine ⟨hword, by decide, ?_, hmask (-3), hbits⟩
  exact (((hresidue (-3)).2 (-1)).2 ⟨by decide, by decide, by decide⟩).symm

end RefHart.Word
