import Mathlib
import RefHart.Image
import RefHart.Hart.Execution
import RefHart.Proofs.Accesses

/-!
# Words of a file and words of a memory

**Theorem (`read_load_words`).** Machine code is cut into words twice: by the disassembler, which takes
four bytes at a time from the front and completes the last word, and by the hart, which reads the
instruction memory at an address. Both see the same words, in a memory of any size in which the code
fits, and behind them there are only words that are 0.

Behind the end of a row of bytes there are zeros, for both readers. So each of them is described by
the row as a function of the place, with 0 where the row has ended: the word with index `k` is made of
the bytes at `4 * k` up to `4 * k + 3` (`getD_words`, `read_load_zeros`). The equation holds for every
index, and the short last word is no case of its own.
-/

namespace RefHart

/-! ## Words of a row of bytes -/

namespace Word

theorem toNat_ofBigBytes {bytes : List Byte} (h : bytes.length = 4) :
    (ofBigBytes bytes).toNat = ByteOrder.big.value bytes := by
  have hlt : ByteOrder.big.value bytes < 256 ^ bytes.length := ByteOrder.value_lt ..
  rw [h] at hlt
  rw [ofBigBytes, BitVec.toNat_ofNat]
  exact Nat.mod_eq_of_lt hlt

end Word

namespace Image

/-- The bytes of a word that has to be completed. -/
theorem eq_of_short {tail : List Byte} (hshort : ∀ a b c d rest, tail ≠ a :: b :: c :: d :: rest)
    (hne : tail ≠ []) :
    (∃ a, tail = [a]) ∨ (∃ a b, tail = [a, b]) ∨ ∃ a b c, tail = [a, b, c] := by
  rcases tail with - | ⟨a, - | ⟨b, - | ⟨c, - | ⟨d, rest⟩⟩⟩⟩
  · exact absurd rfl hne
  · exact .inl ⟨a, rfl⟩
  · exact .inr (.inl ⟨a, b, rfl⟩)
  · exact .inr (.inr ⟨a, b, c, rfl⟩)
  · exact absurd rfl (hshort a b c d rest)

theorem length_words (bytes : List Byte) : (words bytes).length = (bytes.length + 3) / 4 := by
  fun_induction words bytes with
  | case1 a b c d rest ih =>
    simp only [List.length_cons, ih]
    omega
  | case2 => rfl
  | case3 tail hshort hne =>
    obtain ⟨a, rfl⟩ | ⟨a, b, rfl⟩ | ⟨a, b, c, rfl⟩ := eq_of_short hshort hne <;> simp

/-- The word with a given index is made of the four bytes at its place; zeros follow the last one. -/
theorem getD_words (bytes : List Byte) (k : Nat) :
    (words bytes).getD k 0 = Word.ofBigBytes
      [bytes.getD (4 * k) 0, bytes.getD (4 * k + 1) 0, bytes.getD (4 * k + 2) 0,
        bytes.getD (4 * k + 3) 0] := by
  fun_induction words bytes generalizing k with
  | case1 a b c d rest ih =>
    cases k with
    | zero => rfl
    | succ k => exact ih k
  | case2 => rfl
  | case3 tail hshort hne =>
    obtain ⟨a, rfl⟩ | ⟨a, b, rfl⟩ | ⟨a, b, c, rfl⟩ := eq_of_short hshort hne <;> cases k <;> rfl

end Image

/-! ## Words of a loaded memory -/

namespace Memory

variable {size k : Nat} {bytes : List Byte} {address : Word}

theorem byte_load_zeros {order : ByteOrder} {p : Nat} (h : p < size) :
    ((zeros size order).load bytes).byte p = bytes.getD p 0 := by
  rw [byte, Array.getD_eq_getD_getElem?, List.getD_eq_getElem?_getD]
  by_cases hp : p < bytes.length
  · rw [getElem?_load _ hp (by rwa [size_zeros])]
  · rw [getElem?_load_eq_ite, if_neg (by omega), List.getElem?_eq_none (by omega), zeros,
      Array.getElem?_replicate, if_pos h]
    rfl

/-- An aligned word of a memory that is loaded with machine code is the word of the code. -/
theorem read_load_zeros (hsize : 4 * k + 4 ≤ size) (haddress : address.toNat = 4 * k) :
    ((zeros size .big).load bytes).read address 4 = .ok ((Image.words bytes).getD k 0).toNat := by
  have hholds : ((zeros size .big).load bytes).Holds address 4 := by
    rw [Holds, size_load, size_zeros]
    omega
  have horder : ((zeros size .big).load bytes).order = .big := rfl
  rw [read, if_pos hholds, get_four hholds, horder, haddress, byte_load_zeros (by omega),
    byte_load_zeros (by omega), byte_load_zeros (by omega), byte_load_zeros (by omega),
    Image.getD_words, Word.toNat_ofBigBytes rfl]

end Memory

/-! ## Both readers -/

namespace Image

/-- The words of a row of bytes are what is fetched after loading it, with zeros behind them. -/
theorem read_load_words {bytes : List Byte} {size : Nat}
    (hsize : 4 * ((bytes.length + 3) / 4) ≤ size) (hlt : size < 2 ^ 32) :
    let m := (Memory.zeros size .big).load bytes
    (words bytes).length = (bytes.length + 3) / 4 ∧
      (∀ i (h : i < (words bytes).length),
        m.read (BitVec.ofNat 32 (4 * i)) 4 = .ok (words bytes)[i].toNat ∧
          ∀ hart : Hart, hart.pc = BitVec.ofNat 32 (4 * i) → hart.fetch m = .ok (words bytes)[i]) ∧
      ∀ address : Word, address.toNat % 4 = 0 → 4 * (words bytes).length ≤ address.toNat →
        address.toNat + 4 ≤ size → m.read address 4 = .ok 0 := by
  intro m
  have hlength := length_words bytes
  refine ⟨hlength, fun i h => ?_, fun address haligned hbehind hinside => ?_⟩
  · have haddress : (BitVec.ofNat 32 (4 * i)).toNat = 4 * i := by
      rw [BitVec.toNat_ofNat, Nat.mod_eq_of_lt (by omega)]
    have hword : m.read (BitVec.ofNat 32 (4 * i)) 4 = .ok (words bytes)[i].toNat := by
      rw [Memory.read_load_zeros (by omega) haddress, List.getD_eq_getElem _ _ h]
    refine ⟨hword, fun hart hpc => ?_⟩
    rw [Hart.fetch, hpc, hword]
    exact congrArg Except.ok (BitVec.ofNat_toNat ..)
  · have haddress : address.toNat = 4 * (address.toNat / 4) := by omega
    rw [Memory.read_load_zeros (by omega) haddress, List.getD_eq_default _ _ (by omega)]
    rfl

/-- One byte behind the first word, and a word of the memory behind it. -/
theorem read_load_words_tail :
    let bytes : List Byte := [0x00, 0x50, 0x00, 0x93, 0xAA]
    let m := (Memory.zeros 12 .big).load bytes
    words bytes = [0x00500093, 0xAA000000] ∧ m.read 4 4 = .ok 0xAA000000 ∧ m.read 8 4 = .ok 0 := by
  intro bytes m
  have hsize : 4 * ((bytes.length + 3) / 4) ≤ 12 := by decide
  obtain ⟨-, hwords, hzeros⟩ := read_load_words hsize (by decide)
  exact ⟨by decide, (hwords 1 (by decide)).1, hzeros 8 (by decide) (by decide) (by decide)⟩

end Image

end RefHart
