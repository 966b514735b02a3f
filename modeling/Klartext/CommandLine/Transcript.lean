import Klartext.Evaluation.Session
import Klartext.SourceFile

set_option autoImplicit false

/-! # Transcripts

What a command writes to its output, and how it ends. -/

namespace Klartext

/-- How a command ends. -/
inductive Ending where
  /-- With an exit code. -/
  | exit (code : Nat)
  /-- In a fault that nothing handles. -/
  | fault (fault : SourceFault)

/-- What a command writes and how it ends. -/
structure Transcript where
  output : String
  errors : String
  ending : Ending

namespace Transcript

/-- A command that writes text and ends well. -/
def success (output : String) : Transcript := ⟨output, "", .exit 0⟩

/-- A command that writes text and ends with code 1. -/
def failure (output : String) : Transcript := ⟨output, "", .exit 1⟩

/-- A command that has written something before. -/
def after (output : String) (t : Transcript) : Transcript :=
  { t with output := output ++ t.output }

end Transcript

/-- Lines of output. -/
def outputLines (lines : List String) : String := String.join (lines.map fun line => line ++ "\n")

/-- The lines that a machine has recorded from event number `first` on. -/
def Machine.outputFrom (m : Machine) (first : Nat) : String :=
  outputLines ((m.events.toList.drop first).map Event.line)

/-- The lines of input in a text. Only a line feed ends a line, and a last line without one
    counts. -/
def inputLines (t : Text) : List String :=
  let lines := (Text.splitOn '\n' t).map String.ofList
  if lines.getLast? == some "" then lines.dropLast else lines

/-! ## The bindings of a session -/

/-- The length above which a shown value is cut. -/
def shownLimit : Nat := 60

/-- A shown value, cut if it is too long. -/
def abbreviated (shown : String) : String :=
  if shownLimit < shown.length then String.ofList (shown.toList.take (shownLimit - 3)) ++ "..."
  else shown

/-- A variable's value on one line. -/
def shownNode : Node → String
  | .literal v => v.shown
  | n => n.term

/-- The variables and the functions of the program in the first scope, a line for each. -/
def Session.bindings (s : Session) : List String :=
  let values := s.values.map fun (name, value) =>
    let shown := abbreviated (shownNode value)
    s!"  {name} = {shown}"
  let functions := s.functions.filterMap fun (name, function) =>
    match function with
    | .defined _ parameters _ _ =>
      let shown := if parameters.isEmpty then "-" else ", ".intercalate parameters
      some s!"  Funktion {name} ({shown})"
    | .builtin .. => none
  let all := values ++ functions
  "Current environment:" :: (if all.isEmpty then ["  (no user-defined bindings)"] else all)

end Klartext
