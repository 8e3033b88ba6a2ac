import ContractScript.CommandLine.Arguments

/-! The command line: arguments in, bytes and an exit code out. Files are read here and nowhere
else. The log is not written: its lines begin with the time, and it would lack what programs log. -/

namespace ContractScript

open CommandLine

/-- The text of a file, or why there is none. -/
def readText (file : String) : IO (Except ReadFailure String) := do
  try
    match String.fromUTF8? (← IO.FS.readBinFile file) with
    | some text => return .ok text
    | none => return .error .notText
  catch
    | .noFileOrDirectory .. => return .error .missing
    | .inappropriateType _ code _ =>
      return .error (if code = 21 then .directory else .notDirectory)
    | e => return .error (.system (toString e))

end ContractScript

open ContractScript CommandLine in
def main (arguments : List String) : IO UInt32 := do
  let request := Request.ofArguments arguments
  let contents ← match request with
    | .command _ _ c => match c.file? with
      | some file => readText file
      | none => pure (.error .missing)
    | _ => pure (.error .missing)
  let answer := request.answer fun _ => contents
  (← IO.getStdout).write ⟨answer.output⟩
  (← IO.getStderr).putStr answer.errors
  return answer.exitCode.toUInt32
