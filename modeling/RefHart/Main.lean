import RefHart.Tool.Assembler
import RefHart.Tool.Reference

/-!
# Command line

The first argument names the tool, `rv32-asm` or `rv32-golden`; the others are its arguments.
-/

namespace RefHart

/-- The cause of a refusal by the file system. -/
def fileError : IO.Error → FileError
  | .noFileOrDirectory .. => .notFound
  | .inappropriateType _ 20 _ => .notDirectory
  | .inappropriateType _ 21 _ => .isDirectory
  | .invalidArgument _ 36 _ => .nameTooLong
  | e => .refused (toString e)

/-- Access to the file system. -/
def fileSystem : FileAccess IO where
  read path := do
    try
      let bytes ← IO.FS.readBinFile (String.ofList path)
      match String.fromUTF8? bytes with
      | some s => return .ok s.toList
      | none => return .error .notUtf8
    catch e => return .error (fileError e)
  write path text := do
    try
      IO.FS.writeFile (String.ofList path) (String.ofList text)
      return .ok ()
    catch e => return .error (fileError e)

/-- Runs the named tool on the file system. -/
def runTool (name : String) (arguments : List Text) : IO Outcome :=
  match name with
  | "rv32-asm" => AssemblerTool.run fileSystem arguments
  | "rv32-golden" => ReferenceTool.run fileSystem arguments
  | _ => return .wrongUsage (AssemblerTool.usage ++ ReferenceTool.usage)

end RefHart

/-- Runs the tool that the first argument names. -/
def main (arguments : List String) : IO UInt32 := do
  let outcome ← RefHart.runTool (arguments.headD "") (arguments.tail.map String.toList)
  IO.print (String.ofList outcome.out)
  IO.eprint (String.ofList outcome.err)
  return UInt32.ofNat outcome.exitCode
