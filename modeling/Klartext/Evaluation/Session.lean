import Klartext.Evaluation.Evaluator
import Klartext.Source

set_option autoImplicit false

/-! # Programs and sessions

A program is run statement by statement in the first scope of a machine. A return outside of every
function gives its value and the program goes on. A session runs one source text after the other on
the same machine; a text that cannot be read changes nothing. -/

namespace Klartext

/-- The depths that reading and running may reach. Whenever a session reads a text, be it to test
    whether it is complete or to run it, `source` is the limit. -/
structure Limits where
  source : Nat
  run : Nat

/-- The limits outside of proofs. -/
def Limits.standard : Limits := ⟨Grammar.depthLimit, Evaluator.depthLimit⟩

/-- What comes of a program. -/
inductive Outcome where
  /-- It ran to its end; the value is what the last statement left behind. -/
  | finished (value : Option Node)
  /-- A runtime error stopped it. -/
  | stopped (error : RuntimeError)
  /-- Its source text was refused. -/
  | rejected (rejection : Rejection)

namespace Evaluator

/-- Executes the statements of a program; `last` is the result of none. -/
def statements (e : Evaluator) (scope : ScopeId) (last : Option Node) :
    List Node → Run (Option Node)
  | [] => pure last
  | s :: rest => do
    let completion ← e.statement scope s
    statements e scope completion.node? rest

end Evaluator

namespace Machine

/-- Runs a step and keeps the state in which it ends. -/
def perform {α : Type} (m : Machine) (step : Run α) : Except RuntimeError α × Machine :=
  match step m with
  | .ok a after => (.ok a, after)
  | .error e after => (.error e, after)

/-- Runs the statements of a program in the first scope. -/
def interpret (m : Machine) (traced : Bool) (limit : Nat) (program : List Node) :
    Outcome × Machine :=
  match m.perform ((Evaluator.within traced limit).statements root none program) with
  | (.ok value, after) => (.finished value, after)
  | (.error e, after) => (.stopped e, after)

end Machine

/-- A machine that runs one source text after the other. -/
structure Session where
  machine : Machine
  traced : Bool
  limits : Limits

namespace Session

/-- A new session that reads the given input. -/
def start (lines : List String) (traced : Bool) : Session :=
  ⟨Machine.start lines, traced, .standard⟩

/-- Leaves on record, if the session is traced, how many statements were read. -/
def recordParsed (s : Session) (program : List Node) (filename : String) : Session :=
  if s.traced then
    let line := s!"Parsed {program.length} statements from {filename}"
    { s with machine := { s.machine with events := s.machine.events.push (.trace line) } }
  else s

/-- Runs the statements of a program. -/
def interpret (s : Session) (program : List Node) : Outcome × Session :=
  let (outcome, machine) := s.machine.interpret s.traced s.limits.run program
  (outcome, { s with machine := machine })

/-- Reads a source text, to the same limit as every other text of the session, and runs it. A fault
    other than a rejection is passed on. -/
def run (s : Session) (source : String) : Except SourceFault (Outcome × Session) :=
  match parseProgram s.limits.source source.toList unnamed with
  | .ok program => .ok ((s.recordParsed program unnamed).interpret program)
  | .error (.rejected r) => .ok (.rejected r, s)
  | .error fault => .error fault

/-- The variables of the first scope. -/
def values (s : Session) : Table Node :=
  match s.machine.scopes[Machine.root]? with
  | some scope => scope.values
  | none => []

/-- The functions of the first scope. -/
def functions (s : Session) : Table Function :=
  match s.machine.scopes[Machine.root]? with
  | some scope => scope.functions
  | none => []

end Session

end Klartext
