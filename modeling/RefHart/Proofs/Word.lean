import Mathlib
import RefHart.Word

/-!
# Bit fields as numbers

What the three operations on words mean as arithmetic. Taking out bits is division and remainder by
powers of two, masking is the remainder, and extending the sign picks the representative nearest to
zero. A word that is put together from parts with an `or` is the sum of the parts as long as they do
not overlap (`toNat_or_of_dvd`), so that packing and unpacking become linear arithmetic.
-/

namespace RefHart.Word

theorem toNat_ones {width : Nat} (h : width ≤ 32) : (ones width).toNat = 2 ^ width - 1 := by
  have hsplit : (2 : Nat) ^ 32 = 2 ^ width * 2 ^ (32 - width) := by
    rw [← pow_add, Nat.add_sub_cancel' h]
  have hpos : 0 < 2 ^ (32 - width) := by positivity
  rw [ones, BitVec.toNat_ushiftRight, BitVec.toNat_allOnes, Nat.shiftRight_eq_div_pow, hsplit]
  -- `(2 ^ width - 1) * 2 ^ (32 - width)` is the largest multiple below `2 ^ 32`.
  apply Nat.div_eq_of_lt_le
  · rw [Nat.sub_mul, one_mul]
    omega
  · rw [Nat.sub_add_cancel Nat.one_le_two_pow]
    have : 0 < 2 ^ width * 2 ^ (32 - width) := by positivity
    omega

theorem toNat_and_ones (v : Word) {width : Nat} (h : width ≤ 32) :
    (v &&& ones width).toNat = v.toNat % 2 ^ width := by
  rw [BitVec.toNat_and, toNat_ones h, Nat.and_two_pow_sub_one_eq_mod]

theorem toNat_and_31 (v : Word) : (v &&& 0x1F).toNat = v.toNat % 32 := by
  have hones : (0x1F : Word) = ones 5 := by decide
  rw [hones, toNat_and_ones v (by decide)]
  rfl

/-- Taking out bits is division and remainder. -/
theorem toNat_bits (v : Word) {hi lo : Nat} (h : hi - lo < 32) :
    (v.bits hi lo).toNat = v.toNat / 2 ^ lo % 2 ^ (hi - lo + 1) := by
  rw [bits, toNat_and_ones _ h, BitVec.toNat_ushiftRight, Nat.shiftRight_eq_div_pow]

theorem toNat_mask_lt (v : Int) (width : Nat) (h : width ≤ 32) : (mask v width).toNat < 2 ^ width := by
  rw [mask, toNat_and_ones _ h]
  exact Nat.mod_lt _ (by positivity)

/-- Masking is the remainder, also of a negative number. -/
theorem toNat_mask (v : Int) (width : Nat) (h : width ≤ 32) :
    ((mask v width).toNat : Int) = v % 2 ^ width := by
  have hdvd : ((2 ^ width : Nat) : Int) ∣ (2 ^ 32 : Nat) :=
    Int.natCast_dvd_natCast.2 (pow_dvd_pow 2 h)
  rw [mask, toNat_and_ones _ h, BitVec.toNat_ofInt, Int.natCast_emod,
    Int.toNat_of_nonneg (Int.emod_nonneg _ (by decide)), Int.emod_emod_of_dvd _ hdvd]
  push_cast
  rfl

theorem bmod_mul_two_pow (a : Int) {width shift : Nat} (h : 0 < width) :
    (a * 2 ^ shift).bmod (2 ^ (width + shift)) = a.bmod (2 ^ width) * 2 ^ shift := by
  obtain ⟨k, rfl⟩ := Nat.exists_eq_succ_of_ne_zero h.ne'
  have hpos : (0 : Int) < 2 ^ shift := by positivity
  have hmod : a * 2 ^ shift % 2 ^ (k + 1 + shift) = a % 2 ^ (k + 1) * 2 ^ shift := by
    rw [pow_add, mul_comm a, mul_comm ((2 : Int) ^ (k + 1)), Int.mul_emod_mul_of_pos _ _ hpos,
      mul_comm]
  have hhalf : ((2 : Int) ^ (k + 1) + 1) / 2 = 2 ^ k := by rw [pow_succ]; omega
  have hhalf' : ((2 : Int) ^ (k + 1 + shift) + 1) / 2 = 2 ^ k * 2 ^ shift := by
    rw [show k + 1 + shift = k + shift + 1 by omega, pow_succ, pow_add]
    omega
  rw [Int.bmod_def, Int.bmod_def]
  push_cast
  rw [Nat.succ_eq_add_one, hmod, hhalf, hhalf']
  by_cases hlt : a % 2 ^ (k + 1) < 2 ^ k
  · rw [if_pos hlt, if_pos (Int.mul_lt_mul_of_pos_right hlt hpos)]
  · rw [if_neg hlt, if_neg (by
      rw [not_lt] at hlt ⊢
      exact Int.mul_le_mul_of_nonneg_right hlt hpos.le), sub_mul, pow_add _ (k + 1)]

/-- Extending the sign picks the representative nearest to zero. -/
theorem toInt_extendSign (v : Word) {width : Nat} (h : 0 < width) (h' : width ≤ 32) :
    (extendSign v width).toInt = (v.toNat : Int).bmod (2 ^ width) := by
  have hsum : width + (32 - width) = 32 := by omega
  have hpos : (0 : Int) < 2 ^ (32 - width) := by positivity
  have hshift : (v <<< (32 - width)).toInt =
      (v.toNat : Int).bmod (2 ^ width) * 2 ^ (32 - width) := by
    rw [BitVec.toInt_shiftLeft, Nat.shiftLeft_eq, ← bmod_mul_two_pow _ h, hsum]
    push_cast
    rfl
  rw [extendSign, BitVec.toInt_sshiftRight, hshift, Int.shiftRight_eq_div_pow]
  push_cast
  rw [Int.mul_ediv_cancel _ hpos.ne']

theorem even_of_toInt_eq_bmod {w : Word} {n k : Nat} (h : w.toInt = (n : Int).bmod (2 ^ (k + 1)))
    (hn : n % 2 = 0) : w.toNat % 2 = 0 := by
  have hdvd : ((2 : Nat) : Int) ∣ (2 ^ (k + 1) : Nat) :=
    Int.natCast_dvd_natCast.2 (dvd_pow_self 2 k.succ_ne_zero)
  have hmod : w.toInt % 2 = n % 2 := by
    rw [h]
    exact (Int.emod_emod_of_dvd _ hdvd).symm.trans
      ((congrArg (· % 2) Int.bmod_emod).trans (Int.emod_emod_of_dvd _ hdvd))
  rw [BitVec.toInt_eq_toNat_cond] at hmod
  split_ifs at hmod <;> omega

/-- Parts that do not overlap are joined by a sum. -/
theorem toNat_or_of_dvd {x y : Word} (k : Nat) (hx : 2 ^ k ∣ x.toNat) (hy : y.toNat < 2 ^ k) :
    (x ||| y).toNat = x.toNat + y.toNat := by
  obtain ⟨a, ha⟩ := hx
  rw [BitVec.toNat_or, ha, Nat.two_pow_add_eq_or_of_lt hy]

/-- A part that stays inside the word is shifted by a product. -/
theorem toNat_shiftLeft_of_lt {x : Word} {k : Nat} (h : x.toNat * 2 ^ k < 2 ^ 32) :
    (x <<< k).toNat = x.toNat * 2 ^ k := by
  rw [BitVec.toNat_shiftLeft, Nat.shiftLeft_eq, Nat.mod_eq_of_lt h]

end RefHart.Word
