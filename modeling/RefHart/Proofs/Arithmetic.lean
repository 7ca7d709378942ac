import Mathlib
import RefHart.Proofs.Running

/-!
# Multiplication and division

**Theorem (`division_laws`).** Quotient and remainder make up the dividend, modulo `2 ^ 32` for every
divisor and exactly as integers wherever the quotient fits; the remainder is smaller than the divisor
and has the sign of the dividend.

**Theorem (`exact_products`).** The one lower half and each of the three upper halves make up the
exact product of the factors.

The operations are total on words. That they are also never asked for a result that does not exist is
said with operators that trap, on a zero divisor and on a product that needs more than 64 bits:
written with these, every operation still gives its result (`checked?_eq_register?`).

For the signed division everything follows from the quotient that rounds toward zero
(`toInt_sdiv`), for the upper halves from the product of 64 bits, whose two halves are its quotient
and its remainder by `2 ^ 32` (`toInt_upperHalf`, `toNat_mul_eq_emod`).
-/

namespace RefHart.Alu

variable (a b : Word)

/-! ## Operators that trap -/

/-- A division that traps on the divisor 0. -/
def divide? (divide : Word → Word → Word) (a b : Word) : Option Word :=
  if b = 0 then none else some (divide a b)

/-- A signed product of 64 bits that traps when it overflows. -/
def signedProduct? (x y : BitVec 64) : Option (BitVec 64) :=
  if x.smulOverflow y then none else some (x * y)

/-- An unsigned product of 64 bits that traps when it overflows. -/
def unsignedProduct? (x y : BitVec 64) : Option (BitVec 64) :=
  if x.umulOverflow y then none else some (x * y)

/-- The multiplications and divisions, written with operators that trap. -/
def checked? (op : Mnemonic) (a b : Word) : Option Word :=
  match op with
  | .mul => some (a * b)
  | .mulh => (signedProduct? (a.signExtend 64) (b.signExtend 64)).map upperHalf
  | .mulhsu => (signedProduct? (a.signExtend 64) (b.setWidth 64)).map upperHalf
  | .mulhu => (unsignedProduct? (a.setWidth 64) (b.setWidth 64)).map upperHalf
  | .div => if b = 0 then some (BitVec.allOnes 32) else divide? BitVec.sdiv a b
  | .divu => if b = 0 then some (BitVec.allOnes 32) else divide? BitVec.udiv a b
  | .rem => if b = 0 then some a else divide? BitVec.srem a b
  | .remu => if b = 0 then some a else divide? BitVec.umod a b
  | _ => none

/-! ## Products of 64 bits -/

theorem toInt_setWidth_64 : (b.setWidth 64).toInt = b.toNat := by
  rw [BitVec.toInt_setWidth]
  have hlt := b.isLt
  apply Int.bmod_eq_of_le <;> omega

/-- A signed factor of 32 bits times a factor of 32 bits, signed or not, fits into 64 bits. -/
theorem product_bounds {x y : Int} (hx : -2 ^ 31 ≤ x) (hx' : x < 2 ^ 31) (hy : -2 ^ 31 ≤ y)
    (hy' : y < 2 ^ 32) : -2 ^ 63 ≤ x * y ∧ x * y < 2 ^ 63 := by
  have habs : |x * y| ≤ 2 ^ 31 * (2 ^ 32 - 1) := by
    rw [abs_mul]
    exact mul_le_mul (abs_le.2 ⟨hx, by omega⟩) (abs_le.2 ⟨by omega, by omega⟩) (abs_nonneg y)
      (by norm_num)
  obtain ⟨hmin, hmax⟩ := abs_le.1 habs
  constructor <;> omega

theorem smulOverflow_eq_false {x y : BitVec 64} (h : -2 ^ 63 ≤ x.toInt * y.toInt)
    (h' : x.toInt * y.toInt < 2 ^ 63) : x.smulOverflow y = false := by
  unfold BitVec.smulOverflow
  rw [Bool.or_eq_false_iff]
  constructor <;> apply decide_eq_false <;> omega

theorem smulOverflow_signExtend : (a.signExtend 64).smulOverflow (b.signExtend 64) = false := by
  have ha := a.le_two_mul_toInt
  have ha' := a.two_mul_toInt_lt
  have hb := b.le_two_mul_toInt
  have hb' := b.two_mul_toInt_lt
  obtain ⟨h, h'⟩ := product_bounds (x := a.toInt) (y := b.toInt) (by omega) (by omega) (by omega)
    (by omega)
  apply smulOverflow_eq_false <;>
    rwa [BitVec.toInt_signExtend_of_le (by decide), BitVec.toInt_signExtend_of_le (by decide)]

theorem smulOverflow_setWidth : (a.signExtend 64).smulOverflow (b.setWidth 64) = false := by
  have ha := a.le_two_mul_toInt
  have ha' := a.two_mul_toInt_lt
  have hb := b.isLt
  obtain ⟨h, h'⟩ := product_bounds (x := a.toInt) (y := b.toNat) (by omega) (by omega) (by omega)
    (by omega)
  apply smulOverflow_eq_false <;>
    rwa [BitVec.toInt_signExtend_of_le (by decide), toInt_setWidth_64]

theorem umulOverflow_setWidth : (a.setWidth 64).umulOverflow (b.setWidth 64) = false := by
  have hlt : a.toNat * b.toNat < 2 ^ 32 * 2 ^ 32 := Nat.mul_lt_mul'' a.isLt b.isLt
  unfold BitVec.umulOverflow
  rw [BitVec.toNat_setWidth_of_le (by decide), BitVec.toNat_setWidth_of_le (by decide)]
  exact decide_eq_false (by omega)

/-- No multiplication and no division traps. -/
theorem checked?_eq_register? {op : Mnemonic} (h : op.isMulDiv = true) :
    checked? op a b = register? op a b := by
  cases op
  case mulh =>
    rw [checked?, signedProduct?, smulOverflow_signExtend]
    rfl
  case mulhsu =>
    rw [checked?, signedProduct?, smulOverflow_setWidth]
    rfl
  case mulhu =>
    rw [checked?, unsignedProduct?, umulOverflow_setWidth]
    rfl
  case div | divu | rem | remu =>
    rw [checked?, register?, divide?]
    split_ifs <;> rfl
  all_goals first | rfl | contradiction

/-! ## Halves of a product -/

theorem toInt_upperHalf (p : BitVec 64) : (upperHalf p).toInt = p.toInt / 2 ^ 32 := by
  rw [upperHalf, BitVec.toInt_eq_toNat_cond, BitVec.toInt_eq_toNat_cond, BitVec.toNat_setWidth,
    BitVec.toNat_ushiftRight, Nat.shiftRight_eq_div_pow]
  have hp := p.isLt
  split_ifs <;> omega

theorem toNat_upperHalf (p : BitVec 64) : (upperHalf p).toNat = p.toNat / 2 ^ 32 := by
  rw [upperHalf, BitVec.toNat_setWidth, BitVec.toNat_ushiftRight, Nat.shiftRight_eq_div_pow]
  have hp := p.isLt
  omega

theorem toInt_emod_eq_toNat : a.toInt % 2 ^ 32 = a.toNat := by
  have ha := a.isLt
  rw [BitVec.toInt_eq_toNat_cond]
  split_ifs <;> omega

theorem toNat_emod_eq_toNat : (a.toNat : Int) % 2 ^ 32 = a.toNat := by
  have ha := a.isLt
  omega

/-- The lower half is the same for all readings of the factors. -/
theorem toNat_mul_eq_emod {a b : Word} {x y : Int} (hx : x % 2 ^ 32 = a.toNat)
    (hy : y % 2 ^ 32 = b.toNat) : ((a * b).toNat : Int) = x * y % 2 ^ 32 := by
  rw [BitVec.toNat_mul, Int.natCast_emod, Nat.cast_mul, ← hx, ← hy]
  push_cast
  exact (Int.mul_emod x y _).symm

/-- A product of 64 bits from its upper half and the lower half of 32 bits. -/
theorem join_upperHalf {p : BitVec 64} {x y : Int} (hp : p.toInt = x * y)
    (hx : x % 2 ^ 32 = a.toNat) (hy : y % 2 ^ 32 = b.toNat) :
    (upperHalf p).toInt * 2 ^ 32 + (a * b).toNat = x * y := by
  rw [toInt_upperHalf, hp, toNat_mul_eq_emod hx hy]
  exact Int.ediv_mul_add_emod ..

/-- The upper and the lower half make up the exact product, signed or not, and the product that the
upper half is taken from does not overflow. -/
theorem exact_products :
    (∃ low high highMixed highUnsigned,
      register? .mul a b = some low ∧ register? .mulh a b = some high ∧
      register? .mulhsu a b = some highMixed ∧ register? .mulhu a b = some highUnsigned ∧
      high.toInt * 2 ^ 32 + low.toNat = a.toInt * b.toInt ∧
      highMixed.toInt * 2 ^ 32 + low.toNat = a.toInt * b.toNat ∧
      highUnsigned.toNat * 2 ^ 32 + low.toNat = a.toNat * b.toNat) ∧
    checked? .mulh a b = register? .mulh a b ∧ checked? .mulhsu a b = register? .mulhsu a b ∧
    checked? .mulhu a b = register? .mulhu a b := by
  refine ⟨?_, checked?_eq_register? a b rfl, checked?_eq_register? a b rfl,
    checked?_eq_register? a b rfl⟩
  refine ⟨_, _, _, _, rfl, rfl, rfl, rfl, ?_, ?_, ?_⟩
  · have hp : (a.signExtend 64 * b.signExtend 64).toInt = a.toInt * b.toInt := by
      rw [BitVec.toInt_mul_of_not_smulOverflow (by rw [smulOverflow_signExtend]; decide),
        BitVec.toInt_signExtend_of_le (by decide), BitVec.toInt_signExtend_of_le (by decide)]
    exact join_upperHalf a b hp (toInt_emod_eq_toNat a) (toInt_emod_eq_toNat b)
  · have hp : (a.signExtend 64 * b.setWidth 64).toInt = a.toInt * b.toNat := by
      rw [BitVec.toInt_mul_of_not_smulOverflow (by rw [smulOverflow_setWidth]; decide),
        BitVec.toInt_signExtend_of_le (by decide), toInt_setWidth_64]
    exact join_upperHalf a b hp (toInt_emod_eq_toNat a) (toNat_emod_eq_toNat b)
  · have hp : (a.setWidth 64 * b.setWidth 64).toNat = a.toNat * b.toNat := by
      rw [BitVec.toNat_mul_of_not_umulOverflow (by rw [umulOverflow_setWidth]; decide),
        BitVec.toNat_setWidth_of_le (by decide), BitVec.toNat_setWidth_of_le (by decide)]
    rw [toNat_upperHalf, hp, BitVec.toNat_mul]
    exact Nat.div_add_mod' ..

/-! ## Quotients and remainders -/

/-- The one signed quotient that does not fit. -/
def Overflows (a b : Word) : Prop := a = 0x80000000 ∧ b = 0xFFFFFFFF

instance (a b : Word) : Decidable (Overflows a b) :=
  inferInstanceAs (Decidable (a = 0x80000000 ∧ b = 0xFFFFFFFF))

/-- What ties quotient and remainder, signed (`q`, `r`) and unsigned (`uq`, `ur`), to the dividend
`a` and the divisor `b`. -/
structure DivisionLaws (a b q r uq ur : Word) : Prop where
  /-- Modulo `2 ^ 32` the dividend comes back for every divisor. -/
  recompose : q * b + r = a ∧ uq * b + ur = a
  signed : b ≠ 0 → ¬ Overflows a b →
    a.toInt = q.toInt * b.toInt + r.toInt ∧ |r.toInt| < |b.toInt| ∧
      (r.toInt = 0 ∨ r.toInt.sign = a.toInt.sign)
  unsigned : b ≠ 0 → a.toNat = uq.toNat * b.toNat + ur.toNat ∧ ur.toNat < b.toNat
  zero : b = 0 → q = 0xFFFFFFFF ∧ uq = 0xFFFFFFFF ∧ r = a ∧ ur = a
  overflow : Overflows a b → q = 0x80000000 ∧ r = 0

variable {a b}

/-- The quotient is rounded toward zero. -/
theorem toInt_sdiv (h : ¬ Overflows a b) : (a.sdiv b).toInt = a.toInt.tdiv b.toInt := by
  have hmin : BitVec.intMin 32 = 0x80000000 := by decide
  apply BitVec.toInt_sdiv_of_ne_or_ne
  rw [hmin]
  exact not_and_or.1 h

theorem toInt_eq_sdiv_mul_add_srem (h : ¬ Overflows a b) :
    a.toInt = (a.sdiv b).toInt * b.toInt + (a.srem b).toInt := by
  rw [toInt_sdiv h, BitVec.toInt_srem, Int.tdiv_mul_add_tmod]

theorem abs_srem_lt (h : b ≠ 0) : |(a.srem b).toInt| < |b.toInt| := by
  have hb : b.toInt ≠ 0 := by
    rw [Ne, ← BitVec.toInt_zero, BitVec.toInt_inj]
    exact h
  rw [BitVec.toInt_srem, Int.abs_eq_natAbs, Int.abs_eq_natAbs, Int.natAbs_tmod]
  exact_mod_cast Nat.mod_lt _ (Int.natAbs_pos.2 hb)

theorem sign_srem (a b : Word) :
    (a.srem b).toInt = 0 ∨ (a.srem b).toInt.sign = a.toInt.sign := by
  rw [BitVec.toInt_srem, Int.sign_tmod]
  by_cases hdvd : b.toInt ∣ a.toInt
  · exact .inl (Int.tmod_eq_zero_of_dvd hdvd)
  · exact .inr (if_neg hdvd)

theorem sdiv_mul_add_srem (a b : Word) : a.sdiv b * b + a.srem b = a := by
  by_cases hover : Overflows a b
  · obtain ⟨rfl, rfl⟩ := hover
    decide
  · calc a.sdiv b * b + a.srem b
        = BitVec.ofInt 32 ((a.sdiv b).toInt * b.toInt + (a.srem b).toInt) := by
          rw [BitVec.ofInt_add, BitVec.ofInt_mul, BitVec.ofInt_toInt, BitVec.ofInt_toInt,
            BitVec.ofInt_toInt]
      _ = a := by rw [← toInt_eq_sdiv_mul_add_srem hover, BitVec.ofInt_toInt]

theorem udiv_mul_add_umod (a b : Word) : a / b * b + a % b = a := by
  apply BitVec.eq_of_toNat_eq
  rw [BitVec.toNat_add, BitVec.toNat_mul, BitVec.toNat_udiv, BitVec.toNat_umod, Nat.mod_add_mod,
    Nat.div_add_mod', Nat.mod_eq_of_lt a.isLt]

theorem divisionLaws_of_eq_zero (a : Word) :
    DivisionLaws a 0 (BitVec.allOnes 32) a (BitVec.allOnes 32) a where
  recompose := by simp
  signed h := absurd rfl h
  unsigned h := absurd rfl h
  zero _ := ⟨rfl, rfl, rfl, rfl⟩
  overflow h := absurd h.2 (by decide)

theorem divisionLaws_of_ne_zero (h : b ≠ 0) :
    DivisionLaws a b (a.sdiv b) (a.srem b) (a / b) (a % b) where
  recompose := ⟨sdiv_mul_add_srem a b, udiv_mul_add_umod a b⟩
  signed _ hfits := ⟨toInt_eq_sdiv_mul_add_srem hfits, abs_srem_lt h, sign_srem a b⟩
  unsigned _ := by
    have hb : 0 < b.toNat := Nat.pos_of_ne_zero fun hzero => h (BitVec.eq_of_toNat_eq hzero)
    rw [BitVec.toNat_udiv, BitVec.toNat_umod]
    exact ⟨(Nat.div_add_mod' ..).symm, Nat.mod_lt _ hb⟩
  zero hzero := absurd hzero h
  overflow hover := by
    obtain ⟨rfl, rfl⟩ := hover
    decide

/-- Quotients and remainders obey the laws of division for all words, by zero and in the overflow
too, and no division traps. -/
theorem division_laws (a b : Word) :
    (∃ q r uq ur, register? .div a b = some q ∧ register? .rem a b = some r ∧
      register? .divu a b = some uq ∧ register? .remu a b = some ur ∧
      DivisionLaws a b q r uq ur) ∧
    ∀ op ∈ [Mnemonic.div, .rem, .divu, .remu],
      checked? op a b = register? op a b ∧
      ∀ (h : Hart) (memory : Memory) (d : Instruction), d.op = some op →
        ∃ state, h.execute memory d = .ok state := by
  constructor
  · refine ⟨_, _, _, _, rfl, rfl, rfl, rfl, ?_⟩
    by_cases hzero : b = 0
    · subst hzero
      exact divisionLaws_of_eq_zero a
    · rw [if_neg hzero, if_neg hzero, if_neg hzero, if_neg hzero]
      exact divisionLaws_of_ne_zero hzero
  · intro op hmem
    have hop : op.isMulDiv = true ∧ op.accessWidth? = none := by
      revert op
      decide
    refine ⟨checked?_eq_register? a b hop.1, ?_⟩
    intro h memory d hd
    exact ⟨_, Hart.execute_of_accessWidth? hd hop.2⟩

/-- A division that rounds toward zero, and `div x1, x1, x2` on a hart where `x2` is 0. -/
theorem division_laws_negative :
    (2 : Word) ≠ 0 ∧ ¬ Overflows (-7) 2 ∧
      (∃ q r, register? .div (-7) 2 = some q ∧ register? .rem (-7) 2 = some r ∧
        (-7 : Word).toInt = q.toInt * (2 : Word).toInt + r.toInt ∧
        |r.toInt| < |(2 : Word).toInt|) ∧
      (Instruction.decode 0x0220C0B3).op = some .div ∧
      ∃ state, (Hart.reset {}).execute (.zeros 32 .little) (Instruction.decode 0x0220C0B3) =
        .ok state := by
  have hfits : ¬ Overflows (-7) 2 := by decide
  have hop : (Instruction.decode 0x0220C0B3).op = some .div := by decide
  obtain ⟨⟨q, r, _, _, hq, hr, -, -, hlaws⟩, hoperations⟩ := division_laws (-7) 2
  obtain ⟨hexact, hlt, -⟩ := hlaws.signed (by decide) hfits
  obtain ⟨-, htotal⟩ := hoperations .div (by decide)
  exact ⟨by decide, hfits, ⟨q, r, hq, hr, hexact, hlt⟩, hop, htotal _ _ _ hop⟩

end RefHart.Alu
