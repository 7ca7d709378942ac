import RefHart.Json.Basic
import RefHart.Machine.Run

/-!
# Run reports

The result of a run, in full as a JSON value and in short as lines of text.
-/

namespace RefHart

/-- The reason of a halt with its addresses. -/
def Halt.report : Halt → Json
  | system => .object [("reason", .string "system")]
  | zeroWord => .object [("reason", .string "zero_word")]
  | pcOutOfRange pc =>
    .object [("reason", .string "pc_out_of_range"), ("pc", .ofNat pc.toNat)]
  | cycleBound => .object [("reason", .string "cycle_bound")]
  | fault pc address =>
    .object
      [("reason", .string "fault"), ("pc", .ofNat pc.toNat), ("addr", .ofNat address.toNat)]

namespace RunResult

/-- The final state and the reason of the halt. -/
def report (r : RunResult) : Json :=
  .object
    [("regs", .array (r.registers.toList.map fun v => .ofNat v.toNat)),
     ("dmem", .array (r.dmem.toList.map fun b => .ofNat b.toNat)),
     ("cycles", .ofNat r.cycles), ("pc", .ofNat r.pc.toNat), ("halt", r.halt.report)]

/-- The lines of the short form. -/
def summary (r : RunResult) : List Text :=
  ["cycles: " ++ Numeral.decimal r.cycles, "halt:   " ++ r.halt.text,
   "pc:     " ++ Numeral.markedHex 8 r.pc.toNat]

end RunResult

end RefHart
