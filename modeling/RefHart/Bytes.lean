import RefHart.Word

/-!
# Byte orders

A number as a row of bytes. The two byte orders differ only in the direction of the row.
-/

namespace RefHart

/-- Which byte of a number stands first. -/
inductive ByteOrder where
  /-- The least significant byte. -/
  | little
  /-- The most significant byte. -/
  | big
  deriving DecidableEq, Repr

namespace ByteOrder

/-- The number whose bytes are given from the least significant one on. -/
def ofLittle : List Byte → Nat
  | [] => 0
  | b :: rest => b.toNat + 256 * ofLittle rest

/-- The lowest `width` bytes of a number, from the least significant one on. -/
def toLittle : Nat → Nat → List Byte
  | 0, _ => []
  | width + 1, n => BitVec.ofNat 8 n :: toLittle width (n / 256)

/-- The bytes in this order, reordered to start with the least significant one, or back. -/
def arrange (order : ByteOrder) (bytes : List Byte) : List Byte :=
  match order with
  | little => bytes
  | big => bytes.reverse

/-- The number that bytes in this order denote. -/
def value (order : ByteOrder) (bytes : List Byte) : Nat := ofLittle (order.arrange bytes)

/-- The lowest `width` bytes of a number, in this order. -/
def bytes (order : ByteOrder) (width n : Nat) : List Byte := order.arrange (toLittle width n)

end ByteOrder

/-- The four bytes of a word, the most significant first. -/
def Word.bigBytes (w : Word) : List Byte := ByteOrder.big.bytes 4 w.toNat

/-- The word whose four bytes are given, the most significant first. -/
def Word.ofBigBytes (bytes : List Byte) : Word := BitVec.ofNat 32 (ByteOrder.big.value bytes)

end RefHart
