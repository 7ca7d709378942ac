import RefHart.Text.Basic

/-!
# Numerals

Natural numbers and integers in a base up to sixteen. Reading accepts digits of either letter case
and any number of leading zeros; printing gives the shortest numeral in small letters, padded with
zeros where a width is asked for.
-/

namespace RefHart.Numeral

/-! ## Reading -/

/-- The value of a digit of the given base. -/
def digit? (base : Nat) (c : Char) : Option Nat :=
  let d? :=
    if '0' ≤ c ∧ c ≤ '9' then some (c.toNat - 48)
    else if 'a' ≤ c ∧ c ≤ 'f' then some (c.toNat - 87)
    else if 'A' ≤ c ∧ c ≤ 'F' then some (c.toNat - 55)
    else none
  d?.filter (· < base)

/-- Whether a character is a digit of the given base. -/
def isDigit (base : Nat) (c : Char) : Bool := (digit? base c).isSome

/-- The number that a row of digits denotes. -/
def value (base : Nat) (t : Text) : Nat :=
  t.foldl (fun n c => n * base + (digit? base c).getD 0) 0

/-- Reads one or more digits and nothing else. -/
def natural? (base : Nat) (t : Text) : Option Nat :=
  if t ≠ [] ∧ t.all (isDigit base) then some (value base t) else none

/-- Reads one or more digits, of which the first may follow a plus sign. -/
def unsigned? (base : Nat) (t : Text) : Option Nat :=
  match t with
  | '+' :: rest => natural? base rest
  | _ => natural? base t

/-- The digits after a leading `0x` or `0X`. -/
def afterHexMark? : Text → Option Text
  | '0' :: 'x' :: rest => some rest
  | '0' :: 'X' :: rest => some rest
  | _ => none

/-! ## Printing -/

/-- A natural number in decimal. -/
def decimal (n : Nat) : Text := Nat.toDigits 10 n

/-- An integer in decimal, with a minus sign if it is negative. -/
def signedDecimal (i : Int) : Text :=
  if i < 0 then '-' :: decimal i.natAbs else decimal i.natAbs

/-- A natural number in hexadecimal, with leading zeros up to the given width. -/
def hex (width n : Nat) : Text := (Nat.toDigits 16 n).leftpad width '0'

/-- A natural number in hexadecimal behind the mark `0x`. -/
def markedHex (width n : Nat) : Text := "0x" ++ hex width n

end RefHart.Numeral
