import RefHart.Isa.Mnemonic
import RefHart.Text.Numeral
import RefHart.Word

/-!
# Diagnostics

What can be wrong with a line of assembly source. Nothing stops the assembler: every problem leaves
a diagnostic, and all but the redefinition of a label count as errors.
-/

namespace RefHart

/-- One problem in a line of assembly source. -/
inductive AssemblyError where
  | unknownMnemonic (head : Text)
  | badRegister (token : Text)
  | badImmediate (token : Text)
  /-- The token has the form of a label, and no line defines it. -/
  | undefinedLabel (token : Text)
  | badCsr (token : Text)
  | badMemoryOperand (token : Text)
  /-- The operand with this number, counted from 1, is absent. -/
  | missingOperand (mnemonic : Mnemonic) (number : Nat)
  /-- The first operand past those of the format. -/
  | extraOperand (mnemonic : Mnemonic) (operand : Text)
  | outOfRange (value min max : Int)
  | oddOffset (value : Int)
  /-- A label is defined again and loses its address. -/
  | duplicateLabel (name : Text) (previous : Word)
  | emptyLabel
  deriving DecidableEq, Repr

/-- How much a problem matters. -/
inductive Severity where
  | warning | error
  deriving DecidableEq, Repr

namespace AssemblyError

/-- Only a redefined label is a mere warning. -/
def severity : AssemblyError → Severity
  | duplicateLabel _ _ => .warning
  | _ => .error

/-- The wording of a problem. -/
def message : AssemblyError → Text
  | unknownMnemonic head => "unknown mnemonic \x60" ++ head ++ "\x60"
  | badRegister token => "bad register \x60" ++ token ++ "\x60"
  | badImmediate token => "bad immediate \x60" ++ token ++ "\x60"
  | undefinedLabel token => "undefined label \x60" ++ token ++ "\x60"
  | badCsr token => "bad CSR \x60" ++ token ++ "\x60"
  | badMemoryOperand token => "bad memory operand \x60" ++ token ++ "\x60, expected offset(xN)"
  | missingOperand mnemonic number =>
    mnemonic.name ++ ": missing operand #" ++ Numeral.decimal number
  | extraOperand mnemonic operand =>
    mnemonic.name ++ ": unexpected operand \x60" ++ operand ++ "\x60"
  | outOfRange value min max =>
    "immediate " ++ Numeral.signedDecimal value ++ " outside " ++ Numeral.signedDecimal min ++
      "..=" ++ Numeral.signedDecimal max
  | oddOffset value => "target offset " ++ Numeral.signedDecimal value ++ " is odd"
  | duplicateLabel name previous =>
    "label \x60" ++ name ++ "\x60 redefined, previous address " ++
      Numeral.markedHex 4 previous.toNat ++ " discarded"
  | emptyLabel => "empty label name"

end AssemblyError

/-- The word for a severity. -/
def Severity.text : Severity → Text
  | warning => "warning"
  | error => "error"

/-- A problem with the place where it was found. -/
structure Diagnostic where
  /-- The number of the source line, counted from 1. -/
  line : Nat
  /-- The source text shown with the problem. -/
  text : Text
  error : AssemblyError
  deriving DecidableEq, Repr

namespace Diagnostic

/-- How much the problem matters. -/
def severity (d : Diagnostic) : Severity := d.error.severity

/-- The diagnostic as one line of text. -/
def display (d : Diagnostic) : Text :=
  "line " ++ Numeral.decimal d.line ++ ": " ++ d.severity.text ++ ": " ++ d.error.message ++
    " | " ++ d.text

end Diagnostic

end RefHart
