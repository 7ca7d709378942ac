import Mathlib
import RefHart.Memory

/-!
# Bytes and memories

**Rows of bytes.** `value_bytes`: in either byte order, the bytes of a number give the number back up
to what their row cannot hold.

**Accesses.** `get_eq_littleEndian`: a read from a little-endian memory is the sum of its bytes at their
places; `get_four` names the bytes of a word in either order. What a write makes of every byte is
`byte_set`.

**Images.** `get_load`: what is read from a loaded memory inside the image are the bytes of the image.
`getElem?_overwrite` says this byte by byte, for writes at any place.
-/

namespace RefHart

/-! ## Rows of bytes -/

namespace ByteOrder

@[simp] theorem length_toLittle (width n : Nat) : (toLittle width n).length = width := by
  induction width generalizing n with
  | zero => rfl
  | succ width ih => rw [toLittle, List.length_cons, ih]

theorem ofLittle_toLittle (width n : Nat) : ofLittle (toLittle width n) = n % 256 ^ width := by
  induction width generalizing n with
  | zero => rw [pow_zero, Nat.mod_one]; rfl
  | succ width ih =>
    rw [toLittle, ofLittle, ih, BitVec.toNat_ofNat, pow_succ' 256 width, Nat.mod_mul (a := 256)]

theorem ofLittle_lt (bytes : List Byte) : ofLittle bytes < 256 ^ bytes.length := by
  induction bytes with
  | nil => decide
  | cons b rest ih =>
    have hb := b.isLt
    rw [ofLittle, List.length_cons, pow_succ']
    omega

@[simp] theorem length_arrange (order : ByteOrder) (bytes : List Byte) :
    (order.arrange bytes).length = bytes.length := by
  cases order
  · rfl
  · exact List.length_reverse

theorem arrange_arrange (order : ByteOrder) (bytes : List Byte) :
    order.arrange (order.arrange bytes) = bytes := by
  cases order
  · rfl
  · exact List.reverse_reverse bytes

@[simp] theorem length_bytes (order : ByteOrder) (width n : Nat) :
    (order.bytes width n).length = width := by
  rw [bytes, length_arrange, length_toLittle]

/-- The bytes of a number denote the number. -/
theorem value_bytes (order : ByteOrder) (width n : Nat) :
    order.value (order.bytes width n) = n % 256 ^ width := by
  rw [value, bytes, arrange_arrange, ofLittle_toLittle]

theorem value_lt (order : ByteOrder) (bytes : List Byte) :
    order.value bytes < 256 ^ bytes.length := by
  simpa only [value, length_arrange] using ofLittle_lt (order.arrange bytes)

theorem ofLittle_eq_zero_iff (bytes : List Byte) : ofLittle bytes = 0 ↔ ∀ b ∈ bytes, b = 0 := by
  induction bytes with
  | nil => exact iff_of_true rfl nofun
  | cons b rest ih =>
    have hb : b = 0 ↔ b.toNat = 0 := BitVec.toNat_inj.symm
    rw [List.forall_mem_cons, ← ih, hb, ofLittle]
    omega

theorem value_eq_zero_iff (order : ByteOrder) (bytes : List Byte) :
    order.value bytes = 0 ↔ ∀ b ∈ bytes, b = 0 := by
  rw [value, ofLittle_eq_zero_iff]
  cases order
  · rfl
  · simp only [arrange, List.mem_reverse]

theorem ofLittle_eq_sum (bytes : List Byte) :
    ofLittle bytes = ∑ i ∈ Finset.range bytes.length, (bytes.getD i 0).toNat * 256 ^ i := by
  induction bytes with
  | nil => rfl
  | cons b rest ih =>
    rw [ofLittle, ih, List.length_cons, Finset.sum_range_succ', Finset.mul_sum, add_comm]
    congr 1
    · refine Finset.sum_congr rfl fun i _ => ?_
      rw [List.getD_cons_succ, pow_succ]
      ring
    · rw [List.getD_cons_zero, pow_zero, mul_one]

theorem getD_toLittle {width i : Nat} (n : Nat) (h : i < width) :
    (toLittle width n).getD i 0 = BitVec.ofNat 8 (n / 256 ^ i) := by
  induction width generalizing n i with
  | zero => contradiction
  | succ width ih =>
    cases i with
    | zero => rw [toLittle, List.getD_cons_zero, pow_zero, Nat.div_one]
    | succ i =>
      rw [toLittle, List.getD_cons_succ, ih _ (Nat.lt_of_succ_lt_succ h), Nat.div_div_eq_div_mul,
        pow_succ']

end ByteOrder

namespace Word

/-- The byte of a word at an index, counted from the least significant one. -/
def byte (w : Word) (i : Nat) : Byte := w.extractLsb' (8 * i) 8

theorem toNat_byte (w : Word) (i : Nat) : (w.byte i).toNat = w.toNat / 256 ^ i % 256 := by
  rw [byte, BitVec.extractLsb'_toNat, Nat.shiftRight_eq_div_pow, pow_mul]
  rfl

@[simp] theorem length_bigBytes (w : Word) : w.bigBytes.length = 4 := ByteOrder.length_bytes ..

theorem value_bigBytes (w : Word) : ByteOrder.big.value w.bigBytes = w.toNat := by
  rw [bigBytes, ByteOrder.value_bytes]
  exact Nat.mod_eq_of_lt w.isLt

theorem length_flatMap_bigBytes (words : List Word) :
    (words.flatMap bigBytes).length = 4 * words.length := by
  induction words with
  | nil => rfl
  | cons w words ih =>
    rw [List.flatMap_cons, List.length_append, ih, length_bigBytes, List.length_cons]
    omega

/-- The words of a row of words stand four bytes apart. -/
theorem take_drop_flatMap_bigBytes (words : List Word) {k : Nat} (h : k < words.length) :
    ((words.flatMap bigBytes).drop (4 * k)).take 4 = words[k].bigBytes := by
  induction words generalizing k with
  | nil => exact absurd h (Nat.not_lt_zero k)
  | cons w words ih =>
    rw [List.flatMap_cons]
    cases k with
    | zero => exact List.take_left' (length_bigBytes w)
    | succ k =>
      rw [Nat.mul_succ, Nat.add_comm, ← List.drop_drop, List.drop_left' (length_bigBytes w)]
      exact ih (Nat.lt_of_succ_lt_succ h)

/-- The last byte of a word of a row of words. -/
theorem getElem?_flatMap_bigBytes (words : List Word) {k : Nat} (h : k < words.length) :
    (words.flatMap bigBytes)[4 * k + 3]? = some (BitVec.ofNat 8 words[k].toNat) := by
  rw [← List.getElem?_drop, ← List.getElem?_take_of_lt (by decide : 3 < 4),
    take_drop_flatMap_bigBytes words h]
  rfl

end Word

/-! ## Memories -/

/-- The number with the given bytes, from a place on, of which the first is the least significant. -/
def littleEndian (bytes : Nat → Byte) (start width : Nat) : Nat :=
  ∑ i ∈ Finset.range width, (bytes (start + i)).toNat * 256 ^ i

theorem littleEndian_congr {bytes bytes' : Nat → Byte} {start width : Nat}
    (h : ∀ p, start ≤ p → p < start + width → bytes p = bytes' p) :
    littleEndian bytes start width = littleEndian bytes' start width := by
  refine Finset.sum_congr rfl fun i hi => ?_
  rw [h (start + i) (by omega) (by rw [Finset.mem_range] at hi; omega)]

/-- Some bytes of a word make up the number that stands in their place in the word. -/
theorem littleEndian_byte (w : Word) (start width : Nat) :
    littleEndian w.byte start width = w.toNat / 256 ^ start % 256 ^ width := by
  induction width with
  | zero => rw [littleEndian, Finset.sum_range_zero, pow_zero, Nat.mod_one]
  | succ width ih =>
    rw [littleEndian] at ih ⊢
    rw [Finset.sum_range_succ, ih, Word.toNat_byte, Nat.mod_pow_succ, Nat.div_div_eq_div_mul,
      ← pow_add, mul_comm (256 ^ width)]

namespace Memory

/-- The byte at a place; 0 outside the memory. -/
def byte (m : Memory) (p : Nat) : Byte := m.bytes.getD p 0

@[simp] theorem size_overwrite (a : Array Byte) (index : Nat) (bytes : List Byte) :
    (overwrite a index bytes).size = a.size := by
  induction bytes generalizing a index with
  | nil => rfl
  | cons b rest ih => rw [overwrite, ih, Array.size_setIfInBounds]

/-- A byte is replaced if it lies in the row that is put in, and inside the array. -/
theorem getElem?_overwrite (a : Array Byte) (index : Nat) (bytes : List Byte) (i : Nat) :
    (overwrite a index bytes)[i]? =
      if index ≤ i ∧ i < index + bytes.length ∧ i < a.size then bytes[i - index]? else a[i]? := by
  induction bytes generalizing a index with
  | nil =>
    rw [overwrite, List.length_nil, if_neg]
    omega
  | cons b rest ih =>
    rw [overwrite, ih, Array.size_setIfInBounds, Array.getElem?_setIfInBounds, List.length_cons]
    by_cases hi : index = i
    · subst hi
      rw [if_neg (by omega), if_pos rfl, Nat.sub_self]
      by_cases hlt : index < a.size
      · rw [if_pos hlt, if_pos (by omega)]
        rfl
      · rw [if_neg hlt, if_neg (by omega), Array.getElem?_eq_none_iff.2 (by omega)]
    · rw [if_neg hi]
      by_cases hin : index + 1 ≤ i ∧ i < index + 1 + rest.length ∧ i < a.size
      · rw [if_pos hin, if_pos (by omega), show i - index = i - (index + 1) + 1 by omega,
          List.getElem?_cons_succ]
      · rw [if_neg hin, if_neg (by omega)]

@[simp] theorem size_zeros (size : Nat) (order : ByteOrder) : (zeros size order).size = size :=
  Array.size_replicate

@[simp] theorem size_load (m : Memory) (image : List Byte) : (m.load image).size = m.size :=
  size_overwrite ..

@[simp] theorem size_set (m : Memory) (address : Word) (width n : Nat) :
    (m.set address width n).size = m.size := size_overwrite ..

theorem byte_set {m : Memory} {address : Word} {width : Nat} (h : m.Holds address width) (n p : Nat) :
    (m.set address width n).byte p =
      if address.toNat ≤ p ∧ p < address.toNat + width then
        (m.order.bytes width n).getD (p - address.toNat) 0
      else m.byte p := by
  have hsize : address.toNat + width ≤ m.bytes.size := h
  rw [byte, byte, Array.getD_eq_getD_getElem?, Array.getD_eq_getD_getElem?, set, getElem?_overwrite,
    ByteOrder.length_bytes]
  by_cases hp : address.toNat ≤ p ∧ p < address.toNat + width
  · rw [if_pos (by omega), if_pos hp, List.getD_eq_getElem?_getD]
  · rw [if_neg (by omega), if_neg hp]

/-- In little-endian order the bytes of a word are put down from the least significant one on. -/
theorem byte_set_little {m : Memory} (horder : m.order = .little) {address : Word} {width : Nat}
    (h : m.Holds address width) (v : Word) (p : Nat) :
    (m.set address width v.toNat).byte p =
      if address.toNat ≤ p ∧ p < address.toNat + width then v.byte (p - address.toNat)
      else m.byte p := by
  rw [byte_set h, horder]
  split_ifs with hp
  · apply BitVec.eq_of_toNat_eq
    rw [ByteOrder.bytes, ByteOrder.arrange, ByteOrder.getD_toLittle _ (by omega), Word.toNat_byte,
      BitVec.toNat_ofNat]
  · rfl

theorem length_extract {m : Memory} {address : Word} {width : Nat} (h : m.Holds address width) :
    (m.bytes.extract address.toNat (address.toNat + width)).toList.length = width := by
  have hsize : address.toNat + width ≤ m.bytes.size := h
  rw [Array.length_toList, Array.size_extract]
  omega

theorem get_eq_littleEndian {m : Memory} (horder : m.order = .little) {address : Word} {width : Nat}
    (h : m.Holds address width) :
    m.get address width = littleEndian m.byte address.toNat width := by
  have hsize : address.toNat + width ≤ m.bytes.size := h
  rw [get, ByteOrder.value, horder, ByteOrder.arrange, ByteOrder.ofLittle_eq_sum, length_extract h]
  refine Finset.sum_congr rfl fun i hi => ?_
  rw [Finset.mem_range] at hi
  rw [byte, Array.getD_eq_getD_getElem?, List.getD_eq_getElem?_getD, Array.getElem?_toList,
    Array.getElem?_extract, if_pos (by omega)]

theorem toList_extract {m : Memory} {address : Word} {width : Nat} (h : m.Holds address width) :
    (m.bytes.extract address.toNat (address.toNat + width)).toList =
      (List.range width).map fun i => m.byte (address.toNat + i) := by
  have hsize : address.toNat + width ≤ m.bytes.size := h
  apply List.ext_getElem?
  intro i
  rw [Array.getElem?_toList, Array.getElem?_extract, List.getElem?_map]
  by_cases hi : i < width
  · rw [if_pos (by omega), List.getElem?_range hi, Option.map_some, byte,
      Array.getD_eq_getD_getElem?, Array.getElem?_eq_getElem (by omega), Option.getD_some]
  · rw [if_neg (by omega), List.getElem?_eq_none (by rw [List.length_range]; omega), Option.map_none]

/-- A word is read from the four bytes from its address on. -/
theorem get_four {m : Memory} {address : Word} (h : m.Holds address 4) :
    m.get address 4 = m.order.value
      [m.byte address.toNat, m.byte (address.toNat + 1), m.byte (address.toNat + 2),
        m.byte (address.toNat + 3)] := by
  rw [get, toList_extract h]
  rfl

theorem get_lt (m : Memory) (address : Word) (width : Nat) :
    m.get address width < 256 ^ width := by
  refine (ByteOrder.value_lt ..).trans_le (Nat.pow_le_pow_right (by decide) ?_)
  rw [Array.length_toList, Array.size_extract]
  omega

/-- A number of which a byte is not 0 is not 0. -/
theorem get_ne_zero {m : Memory} {address : Word} {width i : Nat} {b : Byte}
    (hb : m.bytes[i]? = some b) (hne : b ≠ 0) (hle : address.toNat ≤ i)
    (hlt : i < address.toNat + width) : m.get address width ≠ 0 := by
  intro hzero
  rw [get, ByteOrder.value_eq_zero_iff] at hzero
  refine hne (hzero b (List.mem_of_getElem? (i := i - address.toNat) ?_))
  have hsize : i < m.bytes.size := (Array.getElem?_eq_some_iff.1 hb).1
  rw [Array.getElem?_toList, Array.getElem?_extract, if_pos (by omega), ← hb]
  congr 1
  omega

theorem getElem?_load (m : Memory) {image : List Byte} {i : Nat} (himage : i < image.length)
    (hsize : i < m.size) : (m.load image).bytes[i]? = image[i]? := by
  have hlength : (image.take m.size).length = min m.size image.length := List.length_take
  rw [load, getElem?_overwrite, if_pos ⟨Nat.zero_le i, by omega, hsize⟩, Nat.sub_zero,
    List.getElem?_take_of_lt hsize]

/-- Inside the image, a loaded memory holds the bytes of the image. -/
theorem get_load (m : Memory) {image : List Byte} {address : Word} {width : Nat}
    (himage : address.toNat + width ≤ image.length) (hsize : address.toNat + width ≤ m.size) :
    (m.load image).get address width =
      m.order.value ((image.drop address.toNat).take width) := by
  have hbytes : ((m.load image).bytes.extract address.toNat (address.toNat + width)).toList =
      (image.drop address.toNat).take width := by
    apply List.ext_getElem?
    intro i
    have hend : (m.load image).bytes.size = m.size := m.size_load image
    rw [Array.getElem?_toList, Array.getElem?_extract, hend]
    by_cases hi : i < width
    · rw [if_pos (by omega), m.getElem?_load (by omega) (by omega), List.getElem?_take_of_lt hi,
        List.getElem?_drop]
    · rw [if_neg (by omega), List.getElem?_take_eq_none (by omega)]
  rw [get, hbytes]
  rfl

/-- The words of a loaded program are fetched from their places. -/
theorem get_load_flatMap_bigBytes (m : Memory) (horder : m.order = .big) (words : List Word)
    (hsize : 4 * words.length ≤ m.size) {k : Nat} (hk : k < words.length) {address : Word}
    (haddress : address.toNat = 4 * k) :
    (m.load (words.flatMap Word.bigBytes)).get address 4 = words[k].toNat := by
  rw [get_load m (by rw [Word.length_flatMap_bigBytes]; omega) (by omega), haddress,
    Word.take_drop_flatMap_bigBytes words hk, horder, Word.value_bigBytes]

end Memory

end RefHart
