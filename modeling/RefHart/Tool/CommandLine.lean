import RefHart.Text.Split

/-!
# Command lines

Options are written `--name value` or `--name=value`, those with a letter also `-n value`, `-nvalue`
or `-n=value`; flags are options without a value. Everything else is an operand, and so is
everything after `--`.

A value in an argument of its own must not look like an option, and no option may be given twice.

**Notices.** An option may ask for a notice in place of the tool's work. What stands before it must
be in order, and what stands behind it is not read.
-/

namespace RefHart

/-- What a tool can say of itself. -/
inductive Notice where
  /-- How it is called. -/
  | help
  /-- Its name and version. -/
  | version
  deriving DecidableEq, Repr

/-- What an option is for. -/
inductive OptionKind where
  /-- It carries a value. -/
  | value
  /-- It is given or not. -/
  | flag
  /-- It asks for a notice. -/
  | notice (notice : Notice)
  deriving DecidableEq, Repr

/-- An option that a tool understands. -/
structure CommandOption where
  /-- The long name, without its dashes. -/
  name : Text
  letter? : Option Char := none
  kind : OptionKind := .value
  deriving DecidableEq, Repr

/-- The option that asks how a tool is called. -/
def CommandOption.help : CommandOption :=
  { name := "help", letter? := some 'h', kind := .notice .help }

/-- The option that asks for the name and version of a tool. -/
def CommandOption.version : CommandOption :=
  { name := "version", letter? := some 'V', kind := .notice .version }

/-- A command line taken apart. -/
structure CommandLine where
  /-- The options given with their values; the value of a flag is empty. -/
  options : List (Text × Text) := []
  operands : List Text := []
  /-- The notice asked for, with which the reading ended. -/
  notice? : Option Notice := none
  deriving DecidableEq, Repr

namespace CommandLine

/-- Whether an argument looks like an option. A single dash does not. -/
def looksLikeOption (argument : Text) : Bool :=
  argument.head? == some '-' && argument.length != 1

/-- The value that characters behind the letter of an option give it. The letter of a notice takes
effect whatever follows. -/
def attachedValue? (kind : OptionKind) (attached : Text) : Option Text :=
  match kind, attached with
  | .notice _, _ => none
  | _, [] => none
  | _, '=' :: value => some value
  | _, value => some value

/-- The option that an argument names, and the value attached to it. -/
def option? (known : List CommandOption) (argument : Text) :
    Option (CommandOption × Option Text) :=
  match argument with
  | '-' :: '-' :: long =>
    let (name, value?) := match Text.cutAt? '=' long with
      | some (name, value) => (name, some value)
      | none => (long, none)
    (known.find? (·.name == name)).map (·, value?)
  | '-' :: letter :: attached =>
    (known.find? (·.letter? == some letter)).map fun o => (o, attachedValue? o.kind attached)
  | _ => none

/-- Puts an option in front of those read. -/
def addOption (option : CommandOption) (value : Text) (line : CommandLine) : CommandLine :=
  { line with options := (option.name, value) :: line.options }

/-- Takes the arguments apart, without regard to repetitions. -/
def scan (known : List CommandOption) : List Text → Option CommandLine
  | [] => some {}
  | argument :: rest =>
    if argument = "--" then some { operands := rest }
    else if looksLikeOption argument then
      match option? known argument with
      | none => none
      | some (option, value?) =>
        match option.kind, value? with
        | .notice notice, none => some { notice? := some notice }
        | .flag, none => (scan known rest).map (addOption option [])
        | .notice _, some _ | .flag, some _ => none
        | .value, some value => (scan known rest).map (addOption option value)
        | .value, none =>
          match rest with
          | [] => none
          | value :: rest =>
            if looksLikeOption value then none
            else (scan known rest).map (addOption option value)
    else (scan known rest).map fun line => { line with operands := argument :: line.operands }

/-- Takes the arguments of a tool with the given options apart. -/
def read? (known : List CommandOption) (arguments : List Text) : Option CommandLine :=
  (scan known arguments).filter fun line => line.options.Pairwise fun a b => a.1 ≠ b.1

/-- Whether an option was given. -/
def has (line : CommandLine) (name : Text) : Bool := (line.options.lookup name).isSome

/-- The value of an option under a reading; none inside if it was not given. -/
def value? {α : Type} (line : CommandLine) (name : Text) (reading : Text → Option α) :
    Option (Option α) :=
  match line.options.lookup name with
  | some value => (reading value).map some
  | none => some none

/-- A path: any text but the empty one. -/
def path? (t : Text) : Option Text := if t = [] then none else some t

end CommandLine

end RefHart
