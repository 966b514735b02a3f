import Klartext.CommandLine.Program

set_option autoImplicit false

/-! # The program

The outer layer around `Klartext.Command`: it fetches the script and the input, writes the
transcript and gives the exit code. The whole input is read before anything is written. -/

namespace Klartext

/-- What stands under a path. -/
def contentAt (path : String) : IO FileContent := do
  try
    return .bytes (← IO.FS.readBinFile path).toList
  catch
    | .noFileOrDirectory .. => return .missing
    | .inappropriateType .. => return .directory
    | e => throw e

/-- The lines of a stream up to its end, behind the text read so far. -/
partial def readAll (stream : IO.FS.Stream) (before : String) : IO String := do
  let line ← stream.getLine
  if line.isEmpty then return before else readAll stream (before ++ line)

/-- The transcript of a command line. Only a command that does something reads a script and the
    input. -/
def transcriptOf (arguments : List String) : IO Transcript := do
  match Request.ofArguments arguments with
  | .perform options =>
    let content ← match Command.script? options with
      | some path => contentAt path
      | none => pure .missing
    let input ← readAll (← IO.getStdin) ""
    return Command.perform options (fun _ => content) (inputLines input.toList) false
  | _ => return Command.run arguments (fun _ => .missing) [] false

/-- The message about a fault that nothing handles. -/
def SourceFault.message : SourceFault → String
  | .rejected r => r.text
  | .tooManyDigits count => tooManyDigitsMessage count
  | .directory path => directoryMessage path

end Klartext

open Klartext in
/-- Runs the command line. -/
def main (arguments : List String) : IO UInt32 := do
  let transcript ← transcriptOf arguments
  IO.print transcript.output
  IO.eprint transcript.errors
  match transcript.ending with
  | .exit code => return code.toUInt32
  | .fault fault =>
    IO.eprintln fault.message
    return 1
