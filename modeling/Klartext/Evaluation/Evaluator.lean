import Klartext.Evaluation.Machine
import Klartext.Evaluation.Operation

set_option autoImplicit false

/-! # Evaluation

An expression gives a node, which for every program that was read from source text is a literal. A
statement gives a value, nothing, or the signal to return, which ends the blocks around it up to
the call of a function.

The rules are not recursive: a rule gets the evaluator for what is nested in it as an argument.
`Evaluator.within` ties the knot for a limited depth, where every nested expression and statement
takes one level off. Depth zero is a runtime error. -/

namespace Klartext

/-- What comes of a statement. -/
inductive Completion where
  | nothing
  | value (node : Node)
  | returned (node : Node)

/-- The node that a completed statement leaves behind. -/
def Completion.node? : Completion → Option Node
  | .nothing => none
  | .value n => some n
  | .returned n => some n

/-- How expressions and statements are evaluated in a scope. -/
structure Evaluator where
  expression : ScopeId → Node → Run Node
  statement : ScopeId → Node → Run Completion

namespace Evaluator

/-- Evaluates several expressions from left to right. -/
def expressions (e : Evaluator) (scope : ScopeId) : List Node → Run (List Node)
  | [] => pure []
  | n :: rest => do
    let value ← e.expression scope n
    let values ← expressions e scope rest
    return value :: values

/-- Executes statements in order up to the first that returns; the last one executed gives the
    result, and `last` is the result of none. -/
def blockFrom (e : Evaluator) (scope : ScopeId) (last : Completion) : List Node → Run Completion
  | [] => pure last
  | s :: rest => do
    match ← e.statement scope s with
    | .returned n => return .returned n
    | completion => blockFrom e scope completion rest

/-- Executes the statements of a block. -/
def block (e : Evaluator) (scope : ScopeId) (statements : List Node) : Run Completion :=
  blockFrom e scope .nothing statements

/-! ## Calls -/

/-- Reads a line of an input. -/
def readLine (input : Nat) : Run Node := do
  match (← get).inputs[input]? with
  | some (line :: rest) =>
    modify fun m => { m with inputs := m.inputs.set! input rest }
    return .literal (.string line)
  | _ => throw .inputExhausted

/-- Does what a built-in function does. -/
def builtin : Builtin → Run Node
  | .readLine input => readLine input
  | .constant result => pure result

/-- Binds parameters to values in a scope. -/
def bind (scope : ScopeId) : List String → List Node → Run Unit
  | name :: names, value :: values => do
    Run.updateScopes fun scopes => scopes.setVariable scope name value
    bind scope names values
  | _, _ => pure ()

/-- Calls a function with values. A function of the program runs in a new scope within the one that
    it was defined in; without a return its result is `nix`. -/
def apply (e : Evaluator) (function : Function) (values : List Node) : Run Node := do
  match function with
  | .builtin _ _ action => builtin action
  | .defined _ parameters body closure =>
    let scope := (← get).scopes.size
    Run.updateScopes fun scopes => scopes.add (some closure)
    bind scope parameters values
    match ← block e scope body with
    | .returned n => return n
    | _ => return .literal .null

/-- Evaluates a call: the function is looked up and the number of arguments checked before the
    arguments are evaluated in the scope of the call. -/
def call (traced : Bool) (e : Evaluator) (scope : ScopeId) (name : String)
    (arguments : List Node) : Run Node := do
  match (← get).scopes.findFunction? scope name with
  | none => throw (.undefinedFunction name)
  | some function =>
    if arguments.length ≠ function.parameters.length then
      throw (.arity function.name function.parameters.length arguments.length)
    let values ← e.expressions scope arguments
    Run.trace traced s!"Calling {function.name} with {values.length} arguments"
    e.apply function values

/-! ## Expressions -/

/-- Evaluates an expression. Both operands of an operation are always evaluated, the left one
    first. -/
def evaluate (traced : Bool) (e : Evaluator) (scope : ScopeId) (node : Node) : Run Node := do
  Run.trace traced s!"Evaluating: {node.kind}"
  match node with
  | .literal _ => return node
  | .operation operator left right =>
    let left ← e.expression scope left
    let right ← e.expression scope right
    return .literal (← Run.ofExcept (operator.apply left right))
  | .reference name =>
    match (← get).scopes.findVariable? scope name with
    | some value => return value
    | none => throw (.undefinedVariable name)
  | .call name arguments => e.call traced scope name arguments
  | other => throw (.notEvaluable other.kind)

/-! ## Statements -/

/-- Prints values one after the other. -/
def print : List Node → Run Unit
  | [] => pure ()
  | n :: rest => do
    let value ← Run.ofExcept n.value?
    Run.record (.printed value)
    print rest

/-- Executes the first branch whose condition counts as true, and `otherwise` if there is none. -/
def choose (e : Evaluator) (scope : ScopeId) (otherwise : Option (List Node)) :
    List (Branch Node) → Run Completion
  | [] =>
    match otherwise with
    | none => pure .nothing
    | some body => e.block scope body
  | branch :: others => do
    if (← e.expression scope branch.condition).isTruthy then e.block scope branch.body
    else choose e scope otherwise others

/-- Executes a statement. All values of a print statement are evaluated before the first one is
    printed. -/
def execute (traced : Bool) (e : Evaluator) (scope : ScopeId) (node : Node) : Run Completion := do
  Run.trace traced s!"Executing: {node.kind}"
  match node with
  | .evaluation value => return .value (← e.expression scope value)
  | .definition name value =>
    let value ← e.expression scope value
    Run.updateScopes fun scopes => scopes.setVariable scope name value
    return .nothing
  | .function name parameters body =>
    Run.updateScopes fun scopes => scopes.define scope name parameters body
    return .nothing
  | .giveBack value => return .returned (← e.expression scope value)
  | .print values =>
    print (← e.expressions scope values)
    return .nothing
  | .conditional first others otherwise => e.choose scope otherwise (first :: others)
  | other => throw (.notExecutable other.kind)

/-! ## Depth -/

/-- The evaluator at depth zero. -/
def exhausted : Evaluator where
  expression _ _ := throw .tooDeep
  statement _ _ := throw .tooDeep

/-- The evaluator for `limit` levels of nesting. -/
def within (traced : Bool) : (limit : Nat) → Evaluator
  | 0 => exhausted
  | limit + 1 =>
    let nested := within traced limit
    { expression := evaluate traced nested
      statement := execute traced nested }

/-- The depth of nesting, calls included, up to which programs are run. Like the limit for source
    text it stands in for the recursion that the host allows. -/
def depthLimit : Nat := 500

end Evaluator

end Klartext
