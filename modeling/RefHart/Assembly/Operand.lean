import RefHart.Isa.Register
import RefHart.Text.Split

/-!
# Operand tokens

The readings of a single operand token that need no context: numeric literals, memory operands, and
the form of a label name.
-/

namespace RefHart.Operand

/-- The greatest magnitude of a literal. -/
def maxMagnitude : Nat := 0x7FFFFFFFFFFFFFFF

/-- The magnitude of a literal: hexadecimal digits after `0x`, else decimal digits. -/
def magnitude? (body : Text) : Option Nat :=
  let n? := match Numeral.afterHexMark? body with
    | some digits => Numeral.natural? 16 digits
    | none => Numeral.natural? 10 body
  n?.filter (· ≤ maxMagnitude)

/-- The value of a numeric literal: an optional sign, then its magnitude. -/
def literal? : Text → Option Int
  | '-' :: body => (magnitude? body).map fun n => -(n : Int)
  | '+' :: body => (magnitude? body).map fun n => (n : Int)
  | body => (magnitude? body).map fun n => (n : Int)

/-- Whether a character may start a label name that is referred to. -/
def isLabelStart (c : Char) : Bool := c.isAlpha || c == '_' || c == '.'

/-- Whether a token has the form of a reference to a label. -/
def looksLikeLabel : Text → Bool
  | [] => false
  | c :: rest => isLabelStart c && rest.all fun c => isLabelStart c || c.isDigit

/-- The trimmed offset text and the base register of a memory operand `offset(base)`. -/
def memory? (token : Text) : Option (Text × Nat) :=
  if token.getLast? = some ')' then
    match Text.cutAt? '(' token.dropLast with
    | some (offset, base) => (Register.ofToken? (Text.trim base)).map fun r => (Text.trim offset, r)
    | none => none
  else none

end RefHart.Operand
