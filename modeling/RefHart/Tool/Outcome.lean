import RefHart.Tool.CommandLine
import RefHart.Tool.Files

/-!
# Outcomes of tools

What a run of a tool shows to the outside, and how it fails: with the activity that failed and,
where there is one, its cause. A tool that asks for more memory than there can be does not fail but
breaks down.
-/

namespace RefHart

/-- What a run of a tool leaves behind besides its files. -/
structure Outcome where
  exitCode : Nat := 0
  /-- The text on standard output. -/
  out : Text := []
  /-- The text on standard error. -/
  err : Text := []
  deriving DecidableEq, Repr

/-- The form in which a tool reports. -/
inductive ReportFormat where
  | text | json
  deriving DecidableEq, Repr

/-- The report format with the given name. -/
def ReportFormat.ofName? (name : Text) : Option ReportFormat :=
  if name = "text" then some .text
  else if name = "json" then some .json
  else none

/-- Why a tool stops. -/
structure Failure where
  /-- What it was doing, or what is wrong. -/
  context : Text
  cause? : Option Text := none
  deriving DecidableEq, Repr

/-- The message of a failure. -/
def Failure.message (f : Failure) : Text :=
  "Error: " ++ f.context ++
    (match f.cause? with
      | some cause => "\n\nCaused by:\n    " ++ cause
      | none => []) ++ "\n"

/-- The outcome of a tool that stops with a failure. -/
def Failure.outcome (f : Failure) : Outcome := { exitCode := 1, err := f.message }

/-- The lines that show how a tool is called. -/
def usageText (forms : List Text) : Text :=
  let line (form : Text) : Text := "  " ++ form ++ "\n"
  "usage:\n" ++ forms.flatMap line

/-- The outcome of asking a tool with the given version and forms of call for a notice. -/
def Notice.outcome (version : Text) (forms : List Text) : Notice → Outcome
  | help => { out := usageText forms }
  | .version => { out := version ++ "\n" }

/-- The outcome of a wrong command line. -/
def Outcome.wrongUsage (forms : List Text) : Outcome := { exitCode := 2, err := usageText forms }

/-- The outcome of a tool that breaks down. -/
def Outcome.breakdown (reason : Text) : Outcome := { exitCode := 101, err := reason ++ "\n" }

/-- A computation of a tool, which may fail. -/
abbrev ToolM (m : Type → Type) := ExceptT Failure m

namespace ToolM

variable {m : Type → Type} [Monad m]

/-- The result of an activity, whose failure is told with its cause. -/
def attempt {ε α : Type} (context : Text) (message : ε → Text) (result : Except ε α) : ToolM m α :=
  match result with
  | .ok a => pure a
  | .error e => throw ⟨context, some (message e)⟩

/-- Reads a text file. -/
def readFile (files : FileAccess m) (path : Text) : ToolM m Text := do
  attempt ("reading " ++ path) FileError.message (← files.read path)

/-- Writes a text file. -/
def writeFile (files : FileAccess m) (path text : Text) : ToolM m Unit := do
  attempt ("writing " ++ path) FileError.message (← files.write path text)

/-- The outcome of a computation. -/
def outcome (tool : ToolM m Outcome) : m Outcome := do
  match ← tool.run with
  | .ok outcome => return outcome
  | .error failure => return failure.outcome

end ToolM

end RefHart
