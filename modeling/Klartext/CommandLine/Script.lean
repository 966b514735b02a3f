import Klartext.CommandLine.Transcript
import Klartext.Tree.Outline

set_option autoImplicit false

/-! # Scripts

A script file is either run or only read, in which case its syntax tree is shown. -/

namespace Klartext

namespace Script

/-- A rule of characters across the page. -/
def rule (c : Char) (width : Nat) : String := String.ofList (List.replicate width c)

/-- The transcript of a script that cannot be read. -/
def unreadable (path : String) : SourceFault → Transcript
  | .rejected r => .failure (outputLines [s!"Parse error in '{path}': {r.text}"])
  | fault => ⟨"", "", .fault fault⟩

/-- The line about the statements read, which only a traced command writes. -/
def parsedLine (traced : Bool) (path : String) (program : List Node) : List String :=
  if traced then [s!"Parsed {program.length} statements from {path}"] else []

/-- Shows the syntax tree of a script. -/
def showTree (path : String) (content : FileContent) (traced : Bool) : Transcript :=
  let opening := outputLines [s!"Parsing {path}..."]
  match parseFile Limits.standard.source path content with
  | .error fault => (unreadable path fault).after opening
  | .ok program =>
    let heading := parsedLine traced path program
      ++ ["", s!"Parsed {program.length} statements:", rule '=' 50]
    let trees := (program.zipIdx 1).flatMap fun (statement, index) =>
      ["", s!"Statement {index}:", statement.pretty 0]
    .success (opening ++ outputLines (heading ++ trees))

/-- The report of a runtime error. -/
def errorReport (path : String) (e : RuntimeError) (bindings : List String) : List String :=
  ["", rule '=' 70, s!"Runtime Error in '{path}'", rule '=' 70, "", s!"Error: {e.message}"]
    ++ bindings ++ ["", rule '=' 70, ""]

/-- Runs a script. -/
def run (path : String) (content : FileContent) (traced : Bool) (input : List String) :
    Transcript :=
  let opening := if traced then outputLines [s!"Parsing {path}..."] else ""
  match parseFile Limits.standard.source path content with
  | .error fault => (unreadable path fault).after opening
  | .ok program =>
    let session := (Session.start input traced).recordParsed program path
    let (outcome, after) := session.interpret program
    let printed := opening ++ after.machine.outputFrom 0
    let bindings := if traced then after.bindings else []
    match outcome with
    | .stopped e => .failure (printed ++ outputLines (errorReport path e bindings))
    | _ =>
      let closing := if traced then "Program executed successfully!" :: bindings else []
      .success (printed ++ outputLines closing)

end Script

end Klartext
