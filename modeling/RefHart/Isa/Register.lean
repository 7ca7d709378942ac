import RefHart.Text.Numeral

/-!
# Register tokens

A register is written `x0` to `x31` or by its ABI name, in any ASCII letter case.
-/

namespace RefHart.Register

/-- The ABI names of the registers 0 to 31. -/
def abiNames : List Text :=
  ["zero", "ra", "sp", "gp", "tp", "t0", "t1", "t2", "s0", "s1",
   "a0", "a1", "a2", "a3", "a4", "a5", "a6", "a7",
   "s2", "s3", "s4", "s5", "s6", "s7", "s8", "s9", "s10", "s11",
   "t3", "t4", "t5", "t6"]

/-- The register with the given ABI name; `fp` is a second name of `s0`. -/
def ofAbiName? (name : Text) : Option Nat :=
  if name = "fp" then some 8 else abiNames.idxOf? name

/-- The number in a token that is `x` and an unsigned decimal numeral. -/
def number? : Text → Option Nat
  | 'x' :: digits => Numeral.unsigned? 10 digits
  | _ => none

/-- The register that a token names. A numbered register must be one of the 32. -/
def ofToken? (token : Text) : Option Nat :=
  let name := token.toLower
  match number? name with
  | some n => if n < 32 then some n else none
  | none => ofAbiName? name

end RefHart.Register
