import RefHart.Image
import RefHart.Json.Printer
import RefHart.Machine.Report
import RefHart.Machine.Settings
import RefHart.Tool.CommandLine
import RefHart.Tool.Outcome

/-!
# The reference tool

Runs an image of machine code and writes dumps of the registers and the data memory, with which the
state of another implementation can be compared. Settings come from the command line first, then
from the settings file, then from the defaults.
-/

namespace RefHart.ReferenceTool

/-! ## Options -/

/-- The settings of a run on the command line. -/
structure Options where
  code : Text := "IM.dat"
  data? : Option Text := none
  registerDump : Text := "RF.golden"
  memoryDump : Text := "DM.golden"
  settings? : Option Text := none
  maxCycles? : Option Nat := none
  imemSize? : Option Nat := none
  dmemSize? : Option Nat := none
  outOfRange? : Option OutOfRange := none
  /-- Whether the multiply/divide extension is taken away. -/
  noMulDiv : Bool := false
  format : ReportFormat := .text
  deriving DecidableEq, Repr

/-- The options of the tool. -/
def options : List CommandOption :=
  [{ name := "im" }, { name := "dm" }, { name := "rf-out" }, { name := "dm-out" },
   { name := "config" }, { name := "max-cycles" }, { name := "imem-size" },
   { name := "dmem-size" }, { name := "out-of-range" },
   { name := "no-rv32m", kind := .flag }, { name := "format" }, .help, .version]

/-- A number below 2^64. -/
def number? (t : Text) : Option Nat :=
  (Numeral.unsigned? 10 t).filter (· < 0x10000000000000000)

/-- The settings of a run in a line taken apart. -/
def Options.ofLine? (line : CommandLine) : Option Options := do
  let standard : Options := {}
  return {
    code := (← line.value? "im" CommandLine.path?).getD standard.code
    data? := ← line.value? "dm" CommandLine.path?
    registerDump := (← line.value? "rf-out" CommandLine.path?).getD standard.registerDump
    memoryDump := (← line.value? "dm-out" CommandLine.path?).getD standard.memoryDump
    settings? := ← line.value? "config" CommandLine.path?
    maxCycles? := ← line.value? "max-cycles" number?
    imemSize? := ← line.value? "imem-size" number?
    dmemSize? := ← line.value? "dmem-size" number?
    outOfRange? := ← line.value? "out-of-range" OutOfRange.ofName?
    noMulDiv := line.has "no-rv32m"
    format := (← line.value? "format" ReportFormat.ofName?).getD standard.format }

/-- What the tool is asked to do. -/
inductive Command where
  | simulate (options : Options)
  /-- Only a notice is wanted. -/
  | tell (notice : Notice)
  deriving DecidableEq, Repr

/-- Reads the arguments of the tool, which takes no operands. -/
def read? (arguments : List Text) : Option Command := do
  let line ← CommandLine.read? options arguments
  let settings ← Options.ofLine? line
  match line.operands, line.notice? with
  | [], none => return .simulate settings
  | [], some notice => return .tell notice
  | _, _ => none

/-- The settings of the run, where options win over those given. -/
def Options.override (o : Options) (config : MachineConfig) : MachineConfig where
  maxCycles := o.maxCycles?.getD config.maxCycles
  imemSize := o.imemSize?.getD config.imemSize
  dmemSize := o.dmemSize?.getD config.dmemSize
  hart :=
    { mulDiv := config.hart.mulDiv && !o.noMulDiv
      haltOn := config.hart.haltOn
      outOfRange := o.outOfRange?.getD config.hart.outOfRange }

/-! ## Running -/

/-- What the tool prints on a run. -/
def report (r : RunResult) (o : Options) : Outcome :=
  match o.format with
  | .text =>
    { out := (r.summary ++ ["wrote " ++ o.registerDump ++ " and " ++ o.memoryDump]).flatMap
        Image.line }
  | .json => { out := Image.line (r.report.pretty 0) }

variable {m : Type → Type} [Monad m]

/-- Reads a settings file. What is wrong with one is not told. -/
def readSettings (files : FileAccess m) (path : Text) : ToolM m MachineConfig := do
  let text ← ToolM.readFile files path
  match MachineConfig.ofText? text with
  | some config => return config
  | none => throw ⟨"parsing " ++ path, some "<json error>"⟩

/-- Reads an image. -/
def readImage (files : FileAccess m) (path : Text) : ToolM m (List Byte) := do
  let text ← ToolM.readFile files path
  ToolM.attempt ("parsing " ++ path) Image.ByteError.message (Image.read text)

/-- Writes the dumps of a result; there is none if a memory of an impossible size was asked for. -/
def Options.writeDumps (files : FileAccess m) (o : Options) : Option RunResult → ToolM m Outcome
  | none => return .breakdown "capacity overflow"
  | some result => do
    ToolM.writeFile files o.registerDump (Image.dumpRegisters result.registers.toList)
    ToolM.writeFile files o.memoryDump (Image.dumpMemory result.dmem.toList)
    return report result o

/-- Runs the tool with the given options. -/
def Options.run (files : FileAccess m) (o : Options) : ToolM m Outcome := do
  let config ← match o.settings? with
    | some path => readSettings files path
    | none => pure {}
  let code ← readImage files o.code
  let data ← match o.data? with
    | some path => readImage files path
    | none => pure []
  o.writeDumps files ((o.override config).simulate? code data)

/-- The name and version of the tool. -/
def version : Text := "rv32gold 0.1.0"

/-- The forms of the command line. -/
def usage : List Text :=
  ["rv32-golden [--im FILE] [--dm FILE] [--rf-out FILE] [--dm-out FILE] [--config FILE]",
   "    [--max-cycles N] [--imem-size N] [--dmem-size N] [--out-of-range ignore|fault]",
   "    [--no-rv32m] [--format text|json]", "rv32-golden --help|--version"]

/-- Carries out a command. -/
def Command.run (files : FileAccess m) : Command → ToolM m Outcome
  | .simulate options => options.run files
  | .tell notice => return notice.outcome version usage

/-- Runs the tool with the given arguments. -/
def run (files : FileAccess m) (arguments : List Text) : m Outcome :=
  match read? arguments with
  | some command => (command.run files).outcome
  | none => return .wrongUsage usage

end RefHart.ReferenceTool
