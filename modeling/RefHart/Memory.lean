import RefHart.Bytes
import RefHart.Text.Numeral

/-!
# Memory

A memory is a row of bytes of fixed size with a byte order for accesses of several bytes. An access
must lie wholly inside; there is no wrap-around at the end of the address space and no requirement
of alignment.

**Sizes.** No memory is larger than `Memory.maxSize`. One of a possible size is always granted; that a
host may run short of space is left out.
-/

namespace RefHart

/-- A memory of fixed size. -/
structure Memory where
  bytes : Array Byte
  order : ByteOrder
  deriving DecidableEq, Repr

/-- An access that does not lie inside the memory. -/
structure AccessError where
  width : Nat
  address : Word
  /-- The size of the memory. -/
  size : Nat
  deriving DecidableEq, Repr

/-- The wording of a refused access. -/
def AccessError.message (e : AccessError) : Text :=
  Numeral.decimal e.width ++ "-byte access at " ++ Numeral.markedHex 8 e.address.toNat ++
    " exceeds " ++ Numeral.decimal e.size ++ " bytes of memory"

namespace Memory

/-- A memory of the given size that holds zeros. -/
def zeros (size : Nat) (order : ByteOrder) : Memory := ⟨Array.replicate size 0, order⟩

/-- The greatest number of bytes in a row. -/
def maxSize : Nat := 0x7FFFFFFFFFFFFFFF

/-- A memory of the given size that holds zeros; none if no row of bytes has this size. -/
def zeros? (size : Nat) (order : ByteOrder) : Option Memory :=
  if size ≤ maxSize then some (zeros size order) else none

/-- The number of bytes. -/
def size (m : Memory) : Nat := m.bytes.size

/-- Whether `width` bytes at an address lie inside the memory. -/
def Holds (m : Memory) (address : Word) (width : Nat) : Prop := address.toNat + width ≤ m.size

instance (m : Memory) (address : Word) (width : Nat) : Decidable (m.Holds address width) :=
  inferInstanceAs (Decidable (address.toNat + width ≤ m.size))

/-- Puts a row of bytes into an array from an index on; what does not fit is dropped. -/
def overwrite (a : Array Byte) (index : Nat) : List Byte → Array Byte
  | [] => a
  | b :: rest => overwrite (a.setIfInBounds index b) (index + 1) rest

/-- Copies an image to the start of the memory; what does not fit is dropped. -/
def load (m : Memory) (image : List Byte) : Memory :=
  { m with bytes := overwrite m.bytes 0 (image.take m.size) }

/-- How many bytes of an image do not fit. -/
def lost (m : Memory) (image : List Byte) : Nat := image.length - m.size

/-- The number at an address inside the memory. -/
def get (m : Memory) (address : Word) (width : Nat) : Nat :=
  m.order.value (m.bytes.extract address.toNat (address.toNat + width)).toList

/-- Replaces the number at an address inside the memory by the lowest bytes of `n`. -/
def set (m : Memory) (address : Word) (width n : Nat) : Memory :=
  { m with bytes := overwrite m.bytes address.toNat (m.order.bytes width n) }

/-- Reads a number of `width` bytes. -/
def read (m : Memory) (address : Word) (width : Nat) : Except AccessError Nat :=
  if m.Holds address width then .ok (m.get address width)
  else .error ⟨width, address, m.size⟩

/-- Writes the lowest `width` bytes of a number. -/
def write (m : Memory) (address : Word) (width n : Nat) : Except AccessError Memory :=
  if m.Holds address width then .ok (m.set address width n)
  else .error ⟨width, address, m.size⟩

end Memory

end RefHart
