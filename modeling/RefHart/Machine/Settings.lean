import RefHart.Json.Reader
import RefHart.Machine.Basic

/-!
# Settings files

The settings of a simulation as a JSON record. Fields that are absent keep their defaults, fields
that are not known are passed over, and every field that is present must have its proper form.
-/

namespace RefHart

/-- The policy with the given name. -/
def OutOfRange.ofName? (name : Text) : Option OutOfRange :=
  if name = "ignore" then some .ignore
  else if name = "fault" then some .fault
  else none

/-- The name of a policy. -/
def OutOfRange.name : OutOfRange → Text
  | ignore => "ignore"
  | fault => "fault"

/-- The fields of the switches of a hart. -/
def HartConfig.fieldNames : List Text := ["rv32m", "halt_on", "out_of_range"]

/-- The switches of a hart from a JSON record. -/
def HartConfig.ofJson? (v : Json) : Option HartConfig := do
  let fields ← v.fields? fieldNames
  let standard : HartConfig := {}
  let mulDiv ← Json.field? fields "rv32m" Json.bool? standard.mulDiv
  let haltOn ← Json.field? fields "halt_on" (fun v => v.string?.bind HaltOn.ofText?) standard.haltOn
  let outOfRange ←
    Json.field? fields "out_of_range" (fun v => v.choice?.bind OutOfRange.ofName?)
      standard.outOfRange
  return { mulDiv, haltOn, outOfRange }

/-- The fields of the settings of a simulation. -/
def MachineConfig.fieldNames : List Text := ["max_cycles", "imem_size", "dmem_size", "cpu"]

/-- The settings of a simulation from a JSON record. -/
def MachineConfig.ofJson? (v : Json) : Option MachineConfig := do
  let fields ← v.fields? fieldNames
  let standard : MachineConfig := {}
  let maxCycles ← Json.field? fields "max_cycles" Json.natural? standard.maxCycles
  let imemSize ← Json.field? fields "imem_size" Json.natural? standard.imemSize
  let dmemSize ← Json.field? fields "dmem_size" Json.natural? standard.dmemSize
  let hart ← Json.field? fields "cpu" HartConfig.ofJson? standard.hart
  return { maxCycles, imemSize, dmemSize, hart }

/-- The settings of a simulation from the text of a settings file. -/
def MachineConfig.ofText? (t : Text) : Option MachineConfig :=
  (Json.ofText? t).bind ofJson?

end RefHart
