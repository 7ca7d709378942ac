import RefHart.Assembly.Report
import RefHart.Image
import RefHart.Isa.Disassembly
import RefHart.Json.Printer
import RefHart.Tool.CommandLine
import RefHart.Tool.Outcome

/-!
# The assembler tool

`asm` turns a source file into an image of machine code and reports on it; `disasm` lists the
instructions of an image; `help` shows how the tool is called.
-/

namespace RefHart.AssemblerTool

/-! ## Commands -/

/-- What the tool is asked to do. -/
inductive Command where
  | asm (input output : Text) (strict labels : Bool) (format : ReportFormat)
  | disasm (input : Text) (showWords : Bool)
  /-- Only a notice is wanted. -/
  | tell (notice : Notice)
  deriving DecidableEq, Repr

/-- The options of `asm`. -/
def asmOptions : List CommandOption :=
  [{ name := "output", letter? := some 'o' }, { name := "strict", kind := .flag },
   { name := "labels", kind := .flag }, { name := "format" }, .help]

/-- The options of `disasm`. -/
def disasmOptions : List CommandOption := [{ name := "show-words", kind := .flag }, .help]

/-- The options in place of a command. -/
def toolOptions : List CommandOption := [.help, .version]

/-- The command of a line with one operand, which may be absent before a notice. -/
def ofInput? (line : CommandLine) (command : Text → Command) : Option Command := do
  match line.notice?, ← line.operands.mapM CommandLine.path? with
  | some notice, [] | some notice, [_] => return .tell notice
  | none, [input] => return command input
  | _, _ => none

/-- Reads the arguments of `asm`. -/
def readAsm? (arguments : List Text) : Option Command := do
  let line ← CommandLine.read? asmOptions arguments
  let output ← line.value? "output" CommandLine.path?
  let format ← line.value? "format" ReportFormat.ofName?
  ofInput? line fun input =>
    .asm input (output.getD "IM.dat") (line.has "strict") (line.has "labels") (format.getD .text)

/-- Reads the arguments of `disasm`. -/
def readDisasm? (arguments : List Text) : Option Command := do
  let line ← CommandLine.read? disasmOptions arguments
  ofInput? line fun input => .disasm input (line.has "show-words")

/-- Reads the arguments of `help`: the name of a command, or nothing. -/
def readHelp? : List Text → Option Command
  | [] => some (.tell .help)
  | [command] =>
    if command = "asm" ∨ command = "disasm" ∨ command = "help" then some (.tell .help) else none
  | _ => none

/-- Reads the arguments of the tool. -/
def read? : List Text → Option Command
  | [] => none
  | command :: arguments =>
    if command = "asm" then readAsm? arguments
    else if command = "disasm" then readDisasm? arguments
    else if command = "help" then readHelp? arguments
    else do
      let line ← CommandLine.read? toolOptions [command]
      return .tell (← line.notice?)

/-! ## Reports -/

/-- The line for a label. -/
def labelLine (label : Text × Word) : Text :=
  Numeral.markedHex 4 label.2.toNat ++ " " ++ label.1

/-- The line for a diagnostic. -/
def diagnosticLine (input : Text) (d : Diagnostic) : Text := input ++ ":" ++ d.display

/-- The line for the instruction word with the given index. -/
def instructionLine (showWords : Bool) (numbered : Word × Nat) : Text :=
  let address : Word := BitVec.ofNat 32 (4 * numbered.2)
  Numeral.markedHex 4 address.toNat ++ ": " ++
    (if showWords then Numeral.hex 8 numbered.1.toNat ++ "  " else []) ++
    (Instruction.decode numbered.1).text

/-- What `asm` prints on a program. -/
def report (p : Program) (input : Text) (labels : Bool) : ReportFormat → Outcome
  | .text =>
    { out := if labels then (p.labels.toList.map labelLine).flatMap Image.line else []
      err := (p.diagnostics.map (diagnosticLine input)).flatMap Image.line }
  | .json => { out := Image.line (p.report.pretty 0) }

/-- The failure of a program with errors under `--strict`. -/
def strictFailure (p : Program) : Failure :=
  { context := Numeral.decimal p.errors.length ++ " line(s) failed to assemble" }

/-! ## Running -/

variable {m : Type → Type} [Monad m]

/-- Assembles a file. -/
def assembleFile (files : FileAccess m) (input output : Text) (strict labels : Bool)
    (format : ReportFormat) : ToolM m Outcome := do
  let program := assemble (← ToolM.readFile files input)
  ToolM.writeFile files output (Image.ofProgram program)
  let shown := report program input labels format
  if strict && program.hasErrors then
    return { shown with exitCode := 1, err := shown.err ++ (strictFailure program).message }
  else return shown

/-- Lists the instructions of an image. -/
def disassembleFile (files : FileAccess m) (input : Text) (showWords : Bool) :
    ToolM m Outcome := do
  let text ← ToolM.readFile files input
  let bytes ← ToolM.attempt ("parsing " ++ input) Image.ByteError.message (Image.read text)
  let lines := (Image.words bytes).zipIdx.map (instructionLine showWords)
  return { out := lines.flatMap Image.line }

/-- The name and version of the tool. -/
def version : Text := "rv32gold-asm 0.1.0"

/-- The forms of the command line. -/
def usage : List Text :=
  ["rv32-asm asm [-o FILE] [--strict] [--labels] [--format text|json] SRC",
   "rv32-asm disasm [--show-words] FILE", "rv32-asm help|--version"]

/-- Carries out a command. -/
def Command.run (files : FileAccess m) : Command → ToolM m Outcome
  | asm input output strict labels format => assembleFile files input output strict labels format
  | disasm input showWords => disassembleFile files input showWords
  | tell notice => return notice.outcome version usage

/-- Runs the tool with the given arguments. -/
def run (files : FileAccess m) (arguments : List Text) : m Outcome :=
  match read? arguments with
  | some command => (command.run files).outcome
  | none => return .wrongUsage usage

end RefHart.AssemblerTool
