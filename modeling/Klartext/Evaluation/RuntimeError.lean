import Klartext.Tree.Outline

set_option autoImplicit false

/-! # Runtime errors

Everything that stops a running program, and its wording. The last four causes never arise in a
program that was read from source text: they take a tree in which a node stands where it does not
belong. -/

namespace Klartext

/-- The cause of a runtime error. -/
inductive RuntimeError where
  | undefinedVariable (name : String)
  | undefinedFunction (name : String)
  | arity (function : String) (expected given : Nat)
  | operands (operator : Operator) (left right : String)
  | inputExhausted
  | tooDeep
  | notEvaluable (kind : String)
  | notExecutable (kind : String)
  | notValue (term : String)
  | notRepresentable (kind : String)
  deriving Repr, DecidableEq

/-- The message of a runtime error. -/
def RuntimeError.message : RuntimeError → String
  | .undefinedVariable name => s!"Undefined variable: '{name}'"
  | .undefinedFunction name => s!"Undefined function: '{name}'"
  | .arity function expected given =>
    s!"Function '{function}' requires {expected} arguments, got {given}"
  | .operands operator left right => s!"Cannot {operator.verb} {left} and {right}"
  | .inputExhausted => "No more input to read"
  | .tooDeep => "Maximum recursion depth exceeded"
  | .notEvaluable kind => s!"Cannot evaluate {kind}"
  | .notExecutable kind => s!"Cannot execute {kind}"
  | .notValue term => s!"Not a runtime value: {term}"
  | .notRepresentable kind => s!"Cannot represent {kind} as a Klartext value"

/-- The value of a node that is one. -/
def Node.value? : Node → Except RuntimeError Value
  | .literal v => .ok v
  | n => .error (.notValue n.term)

end Klartext
