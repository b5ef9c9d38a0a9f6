import LooseTypes.Command.Basic

/-!
# The program

Reads what a command needs, runs it, and writes its report.
-/

namespace LooseTypes

def systemFailure : IO.Error → ReadFailure
  | .noFileOrDirectory .. => .system "No such file or directory (os error 2)"
  | .permissionDenied .. => .system "Permission denied (os error 13)"
  | .inappropriateType _ 21 _ => .system "Is a directory (os error 21)"
  | .inappropriateType .. => .system "Not a directory (os error 20)"
  | e => .system e.toString

def attempt (read : IO ByteArray) : IO (Except ReadFailure ByteArray) := do
  try
    return .ok (← read)
  catch e =>
    return .error (systemFailure e)

/-- Reads the source that a command names, and no other. -/
def gatherInputs (c : Command) : IO Inputs := do
  let nothing : Inputs := ⟨.ok .empty, fun _ => .ok .empty⟩
  match c with
  | .coerce data _ =>
    match Source.ofArgument data with
    | .stdin => return { nothing with stdin := ← attempt (← IO.getStdin).readBinToEnd }
    | .file path =>
      let content ← attempt (IO.FS.readBinFile path)
      return { nothing with file := fun _ => content }
    | .literal _ => return nothing
  | _ => return nothing

end LooseTypes

open LooseTypes in
def main (args : List String) : IO UInt32 := do
  let command := Command.ofArguments args
  let inputs ← gatherInputs command
  let filter := (← IO.getEnv "RUST_LOG").bind Filter.ofText?
  let report := command.run inputs filter
  (← IO.getStderr).putStr report.stderr
  (← IO.getStdout).putStr report.stdout
  return report.exitCode.toUInt32
