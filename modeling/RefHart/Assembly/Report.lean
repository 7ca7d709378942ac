import RefHart.Assembly.Program
import RefHart.Json.Basic

/-!
# Assembly reports

What the assembler has to say about a program, as a JSON value.
-/

namespace RefHart

/-- A problem under the name of its kind. -/
def AssemblyError.report : AssemblyError → Json
  | unknownMnemonic head => .object [("UnknownMnemonic", .string head)]
  | badRegister token => .object [("BadRegister", .string token)]
  | badImmediate token => .object [("BadImmediate", .string token)]
  | undefinedLabel token => .object [("UndefinedLabel", .string token)]
  | badCsr token => .object [("BadCsr", .string token)]
  | badMemoryOperand token => .object [("BadMemOperand", .string token)]
  | missingOperand mnemonic number =>
    .object [("MissingOperand",
      .object [("mnemonic", .string mnemonic.name), ("index", .ofNat number)])]
  | extraOperand mnemonic operand =>
    .object [("ExtraOperand",
      .object [("mnemonic", .string mnemonic.name), ("operand", .string operand)])]
  | outOfRange value min max =>
    .object [("OutOfRange",
      .object [("value", .ofInt value), ("min", .ofInt min), ("max", .ofInt max)])]
  | oddOffset value => .object [("Misaligned", .ofInt value)]
  | duplicateLabel name previous =>
    .object [("DuplicateLabel",
      .object [("name", .string name), ("prev", .ofNat previous.toNat)])]
  | emptyLabel => .string "EmptyLabel"

/-- A diagnostic. -/
def Diagnostic.report (d : Diagnostic) : Json :=
  .object
    [("line", .ofNat d.line), ("text", .string d.text), ("severity", .string d.severity.text),
     ("error", d.error.report)]

namespace Program

/-- A label with its address. -/
def labelReport (label : Text × Word) : Json :=
  .object [("addr", .ofNat label.2.toNat), ("name", .string label.1)]

/-- The size of a program, its labels and its diagnostics. -/
def report (p : Program) : Json :=
  .object
    [("words", .ofNat p.lines.length), ("labels", .array (p.labels.toList.map labelReport)),
     ("diagnostics", .array (p.diagnostics.map Diagnostic.report))]

end Program

end RefHart
