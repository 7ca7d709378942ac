/-!
# Words and bit fields

Machine words of 32 bits, and the three operations with which fields are taken out of a word and
values are fitted into one.
-/

namespace RefHart

/-- A machine word. -/
abbrev Word := BitVec 32

/-- A byte of memory. -/
abbrev Byte := BitVec 8

namespace Word

/-- The word whose lowest `width` bits are set, for a width from 1 to 32. -/
def ones (width : Nat) : Word := BitVec.allOnes 32 >>> (32 - width)

/-- The bits from `lo` up to `hi` of `v`, moved to the low end. -/
def bits (v : Word) (hi lo : Nat) : Word := (v >>> lo) &&& ones (hi - lo + 1)

/-- The lowest `width` bits of `v` as a two's complement number. -/
def extendSign (v : Word) (width : Nat) : Word := (v <<< (32 - width)).sshiftRight (32 - width)

/-- The lowest `width` bits of an integer in two's complement. -/
def mask (v : Int) (width : Nat) : Word := BitVec.ofInt 32 v &&& ones width

end Word

end RefHart
