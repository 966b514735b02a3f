import Klartext.Evaluation.Scope
import Klartext.Evaluation.RuntimeError

set_option autoImplicit false

/-! # The state of a run

A running program changes three things: the scopes, the input that is still to be read, and the
record of what it has printed, in which a traced run also leaves its trace. A runtime error leaves
the state as it is at that moment. -/

namespace Klartext

/-- Something that a run leaves on record. -/
inductive Event where
  /-- A line about what the evaluator does, recorded only when it is asked to trace. -/
  | trace (line : String)
  /-- A value that the program printed. -/
  | printed (value : Value)

namespace Event

/-- The value that an event prints. -/
def value? : Event → Option Value
  | .trace _ => none
  | .printed v => some v

/-- The line of a trace event. -/
def trace? : Event → Option String
  | .trace line => some line
  | .printed _ => none

/-- An event as a line of output. -/
def line : Event → String
  | .trace line => line
  | .printed v => v.shown

end Event

/-- The state of a run. -/
structure Machine where
  scopes : Scopes
  /-- For each input the lines that are still to be read. -/
  inputs : Array (List String)
  /-- What has happened so far, in order. -/
  events : Array Event

namespace Machine

/-- The state in which nothing has been made. -/
def empty : Machine := ⟨#[], #[], #[]⟩

/-- The values printed so far. -/
def printed (m : Machine) : List Value := m.events.toList.filterMap Event.value?

/-- The state with a new outermost scope that holds the built-in functions and reads its own
    input. -/
def addStandard (m : Machine) (lines : List String) : Machine :=
  { m with
    scopes := m.scopes.addStandard m.inputs.size
    inputs := m.inputs.push lines }

/-- The number of the first scope. -/
def root : ScopeId := 0

/-- The state in which a program starts: one scope with the built-in functions, and the input. -/
def start (lines : List String) : Machine := empty.addStandard lines

end Machine

/-- A step of a run: it changes the state, and it gives a result or a runtime error. -/
abbrev Run (α : Type) : Type := EStateM RuntimeError Machine α

namespace Run

/-- Leaves an event on record. -/
def record (event : Event) : Run Unit :=
  modify fun m => { m with events := m.events.push event }

/-- Leaves a line on record if the run is traced. -/
def trace (traced : Bool) (line : String) : Run Unit :=
  if traced then record (.trace line) else pure ()

/-- Changes the scopes. -/
def updateScopes (f : Scopes → Scopes) : Run Unit :=
  modify fun m => { m with scopes := f m.scopes }

/-- The result of a computation that may fail. -/
def ofExcept {α : Type} : Except RuntimeError α → Run α
  | .ok a => pure a
  | .error e => throw e

end Run

end Klartext
