import Mathlib
import RefHart.Proofs.Memory

/-!
# Accesses of a memory

**Theorem (`lawful`).** An access succeeds exactly if all its bytes lie inside the memory, without
wrap-around. A write puts the bytes of its number down in the order of the memory, and reading them
there gives the number back. Loading an image replaces the bytes that the image covers. Nothing else
changes, and neither do the size and the byte order. So after any operations, every byte is the one
put there by the last operation that succeeded and covered its place, or else it is the old one.

Everything is said byte by byte, for accesses of any width. A number is told by its bytes
(`ByteOrder.value_eq_iff`), and every byte is replaced or stays (`getElem?_perform`). In what way
accesses overlap does not come up.
-/

namespace RefHart

/-! ## Numbers as rows of bytes -/

namespace ByteOrder

variable {width : Nat}

/-- The byte at an index of the row that a number of `width` bytes takes up. The index counts from the
least significant byte or from the most significant one. -/
def byteAt (order : ByteOrder) (v : BitVec (8 * width)) (k : Nat) : Byte :=
  match order with
  | little => v.extractLsb' (8 * k) 8
  | big => v.extractLsb' (8 * (width - 1 - k)) 8

theorem getElem?_toLittle (v : BitVec (8 * width)) {k : Nat} (h : k < width) :
    (toLittle width v.toNat)[k]? = some (v.extractLsb' (8 * k) 8) := by
  have hlength : k < (toLittle width v.toNat).length := by rwa [length_toLittle]
  rw [List.getElem?_eq_getElem hlength, ← List.getD_eq_getElem _ 0 hlength, getD_toLittle _ h]
  congr 1
  apply BitVec.eq_of_toNat_eq
  rw [BitVec.toNat_ofNat, BitVec.extractLsb'_toNat, Nat.shiftRight_eq_div_pow, pow_mul]
  rfl

theorem getElem?_bytes (order : ByteOrder) (v : BitVec (8 * width)) {k : Nat} (h : k < width) :
    (order.bytes width v.toNat)[k]? = some (order.byteAt v k) := by
  cases order with
  | little => exact getElem?_toLittle v h
  | big =>
    rw [bytes, arrange, List.getElem?_reverse (by rwa [length_toLittle]), length_toLittle]
    exact getElem?_toLittle v (by omega)

theorem toLittle_ofLittle (row : List Byte) : toLittle row.length (ofLittle row) = row := by
  induction row with
  | nil => rfl
  | cons b rest ih =>
    have hb := b.isLt
    have hfirst : BitVec.ofNat 8 (b.toNat + 256 * ofLittle rest) = b := by
      apply BitVec.eq_of_toNat_eq
      rw [BitVec.toNat_ofNat]
      omega
    have hrest : (b.toNat + 256 * ofLittle rest) / 256 = ofLittle rest := by omega
    rw [List.length_cons, ofLittle, toLittle, hfirst, hrest, ih]

/-- The number that a row of bytes denotes has these bytes. -/
theorem bytes_value (order : ByteOrder) (row : List Byte) :
    order.bytes row.length (order.value row) = row := by
  have h := toLittle_ofLittle (order.arrange row)
  rw [length_arrange] at h
  rw [bytes, value, h, arrange_arrange]

theorem value_bytes_toNat (order : ByteOrder) (v : BitVec (8 * width)) :
    order.value (order.bytes width v.toNat) = v.toNat := by
  have hv := v.isLt
  rw [pow_mul] at hv
  exact (value_bytes order width v.toNat).trans (Nat.mod_eq_of_lt hv)

theorem value_eq_iff (order : ByteOrder) {row : List Byte} (h : row.length = width)
    (v : BitVec (8 * width)) :
    order.value row = v.toNat ↔ ∀ k < width, row[k]? = some (order.byteAt v k) := by
  constructor
  · intro hvalue k hk
    rw [← order.bytes_value row, h, hvalue]
    exact order.getElem?_bytes v hk
  · intro hrow
    have hbytes : row = order.bytes width v.toNat := by
      apply List.ext_getElem?
      intro k
      by_cases hk : k < width
      · rw [hrow k hk, order.getElem?_bytes v hk]
      · rw [List.getElem?_eq_none (by omega), List.getElem?_eq_none (by rw [length_bytes]; omega)]
    rw [hbytes, value_bytes_toNat]

end ByteOrder

namespace Memory

variable {m m' : Memory} {address : Word} {width : Nat}

/-! ## Single accesses -/

theorem exists_read_eq_ok (m : Memory) (address : Word) (width : Nat) :
    (∃ n, m.read address width = .ok n) ↔ address.toNat + width ≤ m.size := by
  rw [read]
  split_ifs with hinside
  · exact iff_of_true ⟨_, rfl⟩ hinside
  · exact iff_of_false nofun hinside

theorem exists_write_eq_ok (m : Memory) (address : Word) (width n : Nat) :
    (∃ m', m.write address width n = .ok m') ↔ address.toNat + width ≤ m.size := by
  rw [write]
  split_ifs with hinside
  · exact iff_of_true ⟨_, rfl⟩ hinside
  · exact iff_of_false nofun hinside

/-- A read gives the number of which the bytes are there. -/
theorem read_eq_ok_iff (m : Memory) (address : Word) (v : BitVec (8 * width)) :
    m.read address width = .ok v.toNat ↔
      m.Holds address width ∧
        ∀ k < width, m.bytes[address.toNat + k]? = some (m.order.byteAt v k) := by
  rw [read]
  split_ifs with hinside
  · have hsize : address.toNat + width ≤ m.bytes.size := hinside
    rw [Except.ok.injEq, and_iff_right hinside, get, m.order.value_eq_iff (length_extract hinside)]
    refine forall₂_congr fun k hk => ?_
    rw [Array.getElem?_toList, Array.getElem?_extract, if_pos (by omega)]
  · exact iff_of_false (by simp) fun h => hinside h.1

theorem getElem?_set (h : m.Holds address width) (v : BitVec (8 * width)) (p : Nat) :
    (m.set address width v.toNat).bytes[p]? =
      if address.toNat ≤ p ∧ p < address.toNat + width then
        some (m.order.byteAt v (p - address.toNat))
      else m.bytes[p]? := by
  have hsize : address.toNat + width ≤ m.bytes.size := h
  rw [set, getElem?_overwrite, ByteOrder.length_bytes]
  by_cases hp : address.toNat ≤ p ∧ p < address.toNat + width
  · rw [if_pos (by omega), if_pos hp, m.order.getElem?_bytes v (by omega)]
  · rw [if_neg (by omega), if_neg hp]

/-- What a write of a number makes of a memory. -/
structure Written (m : Memory) (address : Word) (v : BitVec (8 * width)) (m' : Memory) : Prop where
  size : m'.size = m.size
  order : m'.order = m.order
  read : m'.read address width = .ok v.toNat
  inside : ∀ k < width, m'.bytes[address.toNat + k]? = some (m.order.byteAt v k)
  outside : ∀ p, p < address.toNat ∨ address.toNat + width ≤ p → m'.bytes[p]? = m.bytes[p]?

theorem written_of_write {v : BitVec (8 * width)} (h : m.write address width v.toNat = .ok m') :
    Written m address v m' := by
  have hinside : m.Holds address width := (m.exists_write_eq_ok address width v.toNat).1 ⟨m', h⟩
  rw [write, if_pos hinside] at h
  obtain rfl := Except.ok.inj h
  have hbyte : ∀ k < width, (m.set address width v.toNat).bytes[address.toNat + k]? =
      some (m.order.byteAt v k) := by
    intro k hk
    rw [getElem?_set hinside, if_pos (by omega), Nat.add_sub_cancel_left]
  refine ⟨size_set .., rfl, ?read, hbyte, ?outside⟩
  case read =>
    rw [read_eq_ok_iff]
    exact ⟨hinside.trans_eq (size_set ..).symm, hbyte⟩
  case outside =>
    intro p hp
    rw [getElem?_set hinside, if_neg (by omega)]

theorem getElem?_load_eq_ite (m : Memory) (image : List Byte) (p : Nat) :
    (m.load image).bytes[p]? =
      if p < min image.length m.size then image[p]? else m.bytes[p]? := by
  by_cases hp : p < min image.length m.size
  · rw [if_pos hp, m.getElem?_load (by omega) (by omega)]
  · have hlength : (image.take m.size).length = min m.size image.length := List.length_take
    rw [if_neg hp, load, getElem?_overwrite, if_neg (by omega)]

/-- What an image makes of a memory. -/
structure Loaded (m : Memory) (image : List Byte) (m' : Memory) : Prop where
  size : m'.size = m.size
  order : m'.order = m.order
  inside : ∀ p < min image.length m.size, m'.bytes[p]? = image[p]?
  outside : ∀ p, min image.length m.size ≤ p → m'.bytes[p]? = m.bytes[p]?

theorem loaded_load (m : Memory) (image : List Byte) : Loaded m image (m.load image) := by
  refine ⟨size_load .., rfl, fun p hp => ?_, fun p hp => ?_⟩
  · rw [getElem?_load_eq_ite, if_pos hp]
  · rw [getElem?_load_eq_ite, if_neg (by omega)]

/-! ## Any operations -/

/-- What can be done to a memory. -/
inductive Operation where
  | read (address : Word) (width : Nat)
  | write (address : Word) (width : Nat) (v : BitVec (8 * width))
  | load (image : List Byte)

/-- The memory after an operation. A failed write leaves it as it is. -/
def perform (m : Memory) : Operation → Memory
  | .read _ _ => m
  | .write address width v =>
    match m.write address width v.toNat with
    | .ok m' => m'
    | .error _ => m
  | .load image => m.load image

/-- The memory after operations, one after the other. -/
def performAll (m : Memory) (operations : List Operation) : Memory := operations.foldl perform m

/-- The byte that an operation puts at a place of a memory, if it succeeds and covers the place. -/
def Operation.byte? (size : Nat) (order : ByteOrder) (p : Nat) : Operation → Option Byte
  | .read _ _ => none
  | .write address width v =>
    if address.toNat + width ≤ size ∧ address.toNat ≤ p ∧ p < address.toNat + width then
      some (order.byteAt v (p - address.toNat))
    else none
  | .load image => if p < size then image[p]? else none

theorem perform_write (m : Memory) (address : Word) (v : BitVec (8 * width)) :
    m.perform (.write address width v) =
      if m.Holds address width then m.set address width v.toNat else m := by
  rw [perform, write]
  split_ifs <;> rfl

theorem size_perform (m : Memory) (o : Operation) : (m.perform o).size = m.size := by
  cases o with
  | read => rfl
  | load => exact size_load ..
  | write =>
    rw [perform_write]
    split_ifs
    · exact size_set ..
    · rfl

theorem order_perform (m : Memory) (o : Operation) : (m.perform o).order = m.order := by
  cases o with
  | read | load => rfl
  | write => rw [perform_write]; split_ifs <;> rfl

/-- Whatever the operation, a byte that it covers is replaced, and any other byte stays. -/
theorem getElem?_perform (m : Memory) (o : Operation) (p : Nat) :
    (m.perform o).bytes[p]? = (o.byte? m.size m.order p).or m.bytes[p]? := by
  cases o with
  | read => rfl
  | write address width v =>
    rw [perform_write, Operation.byte?]
    by_cases h : m.Holds address width
    · rw [if_pos h, getElem?_set h]
      by_cases hp : address.toNat ≤ p ∧ p < address.toNat + width
      · rw [if_pos hp, if_pos ⟨h, hp⟩]
        rfl
      · rw [if_neg hp, if_neg fun h' => hp h'.2]
        rfl
    · rw [if_neg h, if_neg fun h' => h h'.1]
      rfl
  | load image =>
    rw [perform, getElem?_load_eq_ite, Operation.byte?]
    by_cases hsize : p < m.size
    · by_cases himage : p < image.length
      · rw [if_pos (by omega), if_pos hsize, List.getElem?_eq_getElem himage]
        rfl
      · rw [if_neg (by omega), if_pos hsize, List.getElem?_eq_none (by omega)]
        rfl
    · rw [if_neg (by omega), if_neg hsize]
      rfl

theorem size_performAll (m : Memory) (operations : List Operation) :
    (m.performAll operations).size = m.size := by
  induction operations generalizing m with
  | nil => rfl
  | cons o operations ih => exact (ih (m.perform o)).trans (m.size_perform o)

theorem order_performAll (m : Memory) (operations : List Operation) :
    (m.performAll operations).order = m.order := by
  induction operations generalizing m with
  | nil => rfl
  | cons o operations ih => exact (ih (m.perform o)).trans (m.order_perform o)

theorem getElem?_performAll (m : Memory) (operations : List Operation) (p : Nat) :
    (m.performAll operations).bytes[p]? =
      (operations.reverse.findSome? (Operation.byte? m.size m.order p)).or m.bytes[p]? := by
  induction operations generalizing m with
  | nil => rfl
  | cons o operations ih =>
    have hlater := ih (m.perform o)
    -- The later operations meet a memory of the same size and order, so they cover the same places.
    rw [size_perform, order_perform, getElem?_perform] at hlater
    rw [List.reverse_cons, List.findSome?_append, Option.or_assoc, List.findSome?_singleton]
    exact hlater

/-- The laws of a memory. -/
structure Lawful (m : Memory) : Prop where
  /-- A read succeeds if all its bytes lie inside the memory. -/
  read_succeeds : ∀ address width,
    (∃ n, m.read address width = .ok n) ↔ address.toNat + width ≤ m.size
  /-- So does a write. -/
  write_succeeds : ∀ address width (v : BitVec (8 * width)),
    (∃ m', m.write address width v.toNat = .ok m') ↔ address.toNat + width ≤ m.size
  /-- A read that succeeds returns the number of which the bytes are there. -/
  read : ∀ address width (v : BitVec (8 * width)),
    m.read address width = .ok v.toNat ↔
      address.toNat + width ≤ m.size ∧
        ∀ k < width, m.bytes[address.toNat + k]? = some (m.order.byteAt v k)
  written : ∀ address width (v : BitVec (8 * width)) m',
    m.write address width v.toNat = .ok m' → Written m address v m'
  loaded : ∀ image, Loaded m image (m.load image)
  /-- Of an image, what is not put into the memory is lost. -/
  lost : ∀ image, m.lost image + min image.length m.size = image.length
  /-- A read changes nothing, whether it succeeds or not. -/
  read_keeps : ∀ address width, m.perform (.read address width) = m
  /-- A failed write changes nothing. -/
  failure_keeps : ∀ address width (v : BitVec (8 * width)) e,
    m.write address width v.toNat = .error e → m.perform (.write address width v) = m
  size : ∀ operations, (m.performAll operations).size = m.size
  order : ∀ operations, (m.performAll operations).order = m.order
  /-- The last operation that puts a byte at a place decides on it. -/
  bytes : ∀ operations p, (m.performAll operations).bytes[p]? =
    (operations.reverse.findSome? (Operation.byte? m.size m.order p)).or m.bytes[p]?

/-- Accesses inside succeed, a byte that is read is the last one written to its place, and loading
an image copies what fits. -/
theorem lawful (m : Memory) : m.Lawful where
  read_succeeds := m.exists_read_eq_ok
  write_succeeds address width v := m.exists_write_eq_ok address width v.toNat
  read address _ v := m.read_eq_ok_iff address v
  written _ _ _ _ h := written_of_write h
  loaded := m.loaded_load
  lost image := by
    rw [lost]
    omega
  read_keeps _ _ := rfl
  failure_keeps address width v e h := by rw [perform, h]
  size := m.size_performAll
  order := m.order_performAll
  bytes := m.getElem?_performAll

/-- The second write overlaps the first one, and the third fails at the end of the memory. -/
example : ((zeros 4 .big).performAll [.write 0 4 0x11223344, .write 1 2 0xAABB, .write 3 2 0]).bytes =
    #[0x11, 0xAA, 0xBB, 0x44] := by decide

end Memory

end RefHart
