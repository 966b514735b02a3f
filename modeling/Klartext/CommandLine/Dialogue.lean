import Klartext.CommandLine.Transcript
import Klartext.Tree.Outline

set_option autoImplicit false

/-! # The interactive mode

Lines are collected until they are complete statements, which are then run in one session; a blank
line submits what is incomplete, so that its error shows. Commands are recognised only when nothing
is being collected. The program reads its own input from the same lines. -/

namespace Klartext

/-- The name and version of the program. -/
def versionText : String := "Klartext v1.0.0"

/-- The command that ends the interactive mode. -/
def exitCommand : String := "exit!"

namespace Dialogue

/-! ## Texts -/

/-- What the command `:help` shows. -/
def helpLines : List String :=
  ["REPL Commands:",
    "  :parse <expr>     - Show the syntax tree of an expression",
    "  :env              - Show current environment",
    "  :help             - Show this help",
    s!"  {exitCommand}             - Exit REPL",
    "",
    "Language features:",
    "  der Wert ist 5!                              - Variable definition",
    "  zeig /Wert/ an!                              - Print",
    "  die Summe von /Wert/ und 2!                  - Arithmetic",
    "  die Funktion Doppelt kriegt x und macht",
    "    gib das Produkt aus /x/ und 2 zurück!",
    "  und endet hier!                              - Function definition",
    "  führe Doppelt mit 4 aus!                     - Function call",
    "  stimmt, dass /Wert/ größer als 3 ist? ... oder?!  - Conditional"]

/-- What is shown at the beginning. -/
def greeting (editing traced : Bool) : List String :=
  [s!"{versionText} - Interactive Mode", s!"Type '{exitCommand}' to quit, ':help' for commands"]
    ++ (if editing then ["Readline enabled: Use ↑/↓ for history, Tab for completion"] else [])
    ++ (if traced then ["Debug mode enabled"] else [])
    ++ [""]

/-- The words that are offered to complete a line. -/
def completions : List String :=
  ["der", "die", "das", "ist", "die Funktion", "kriegt", "macht", "und endet hier!", "gib",
    "zurück!", "zeig", "an!", "führe", "mit", "aus", "stimmt, dass", "oder doch, dass",
    "oder nicht?", "oder?!", "die Summe von", "die Differenz von", "das Produkt aus",
    "der Quotient von", "die Verknüpfung zwischen", "gleich", "nicht gleich", "größer als",
    "kleiner als", "wahr", "falsch", "nix", ":parse", ":env", ":help", exitCommand]
    ++ builtinNames

/-- The completions of what has been typed, in the order of the list. -/
def completionsOf (typed : String) : List String :=
  completions.filter fun word => typed.toList.isPrefixOf word.toList

/-! ## Lines -/

/-- What a line means while nothing is being collected. -/
inductive Command where
  | exit
  | nothing
  | parse (expression : Text)
  | bindings
  | help
  | code
  deriving Repr, DecidableEq

/-- The command that a line is; every other line is code. -/
def Command.ofLine (line : String) : Command :=
  let bare := Text.trim line.toList
  if bare == exitCommand.toList then .exit
  else if bare.isEmpty then .nothing
  else if ":parse ".toList.isPrefixOf line.toList then .parse (line.toList.drop 7)
  else if bare == ":env".toList then .bindings
  else if bare == ":help".toList then .help
  else .code

/-- A text is complete if it can be read as a program. Faults other than rejections are passed
    on. -/
def isComplete (limit : Nat) (source : String) : Except SourceFault Bool :=
  match parseProgram limit source.toList unnamed with
  | .ok _ => .ok true
  | .error (.rejected _) => .ok false
  | .error fault => .error fault

/-- The interactive mode between two lines: the session, and the lines collected so far. -/
structure State where
  session : Session
  collected : List String

/-- What comes of a line. -/
inductive Reply where
  /-- Text is written, and the next line is asked for. -/
  | next (output : String) (state : State)
  /-- The interactive mode ends. -/
  | stop
  /-- Text is written, and a fault ends the interactive mode. -/
  | fault (output : String) (fault : SourceFault)

/-- What the outcome of a submitted text shows. -/
def report : Outcome → String
  | .finished none => ""
  | .finished (some n) => outputLines [s!"=> {shownNode n}"]
  | .stopped e => outputLines ["", "Runtime Error:", s!"  {e.message}", ""]
  | .rejected r => outputLines [s!"Parse error: {r.text}"]

/-- Runs a submitted text. -/
def submit (s : Session) (source : String) : Reply :=
  let before := s.machine.events.size
  match s.run source with
  | .error fault => .fault "" fault
  | .ok (outcome, after) =>
    .next (after.machine.outputFrom before ++ report outcome) ⟨after, []⟩

/-- Shows the syntax tree of an expression. -/
def showTree (s : Session) (expression : Text) : Reply :=
  let heading := outputLines ["Expression AST:"]
  match parseExpression s.limits.source expression unnamed with
  | .ok node => .next (heading ++ outputLines [node.pretty 0]) ⟨s, []⟩
  | .error (.rejected r) =>
    .next (heading ++ outputLines [s!"Parse error: {r.text}"]) ⟨s, []⟩
  | .error fault => .fault heading fault

/-- A reply with text before it. -/
def Reply.after (output : String) : Reply → Reply
  | .next more state => .next (output ++ more) state
  | .stop => .stop
  | .fault more cause => .fault (output ++ more) cause

/-- Collects a line of code, and submits what is collected if it is complete or the line is blank.
    The test whether it is complete reads it, which a traced session leaves on record. What passes the
    test is read once more when it is submitted; both readings have the one limit of the session, so
    that the second one finds what the first one found. -/
def collect (state : State) (line : String) : Reply :=
  let session := state.session
  let lines := state.collected ++ [line]
  let source := "\n".intercalate lines
  if Text.isBlank line.toList then submit session source
  else match parseProgram session.limits.source source.toList unnamed with
    | .error (.rejected _) => .next "" ⟨session, lines⟩
    | .error fault => .fault "" fault
    | .ok program =>
      let tested := session.recordParsed program unnamed
      (submit tested source).after (tested.machine.outputFrom session.machine.events.size)

/-- Answers a line. -/
def answer (state : State) (line : String) : Reply :=
  if state.collected.isEmpty then
    match Command.ofLine line with
    | .exit => .stop
    | .nothing => .next "" state
    | .parse expression => showTree state.session expression
    | .bindings => .next (outputLines state.session.bindings) state
    | .help => .next (outputLines helpLines) state
    | .code => collect state line
  else collect state line

/-- What asks for the next line. -/
def prompt (state : State) : String := if state.collected.isEmpty then "klartext> " else "...> "

/-- Takes the next line off the session's input. -/
def nextLine? (s : Session) : Option (String × Session) :=
  match s.machine.inputs[0]? with
  | some (line :: rest) =>
    some (line, { s with machine := { s.machine with inputs := s.machine.inputs.set! 0 rest } })
  | _ => none

/-- Asks for lines and answers them until the input ends, at most `bound` of them. -/
def converse : (bound : Nat) → State → Transcript
  | 0, state => .success (prompt state ++ "\nGoodbye!\n")
  | bound + 1, state =>
    match nextLine? state.session with
    | none => .success (prompt state ++ "\nGoodbye!\n")
    | some (line, session) =>
      match answer { state with session := session } line with
      | .stop => .success (prompt state)
      | .fault output fault => ⟨prompt state ++ output, "", .fault fault⟩
      | .next output next => (converse bound next).after (prompt state ++ output)

/-- The interactive mode on an input. Every answer takes a line off it. -/
def run (editing traced : Bool) (input : List String) : Transcript :=
  (converse (input.length + 1) ⟨Session.start input traced, []⟩).after
    (outputLines (greeting editing traced))

end Dialogue

end Klartext
