import Klartext.Evaluation.Operation

set_option autoImplicit false

/-! # Data and values

Plain data, such as an embedding program holds, becomes a value by being wrapped, and a value
becomes plain data by being unwrapped (`Node.value?`). Integers become numbers; lists and nodes
become nothing. Where plain data stand for numbers, integers are taken exactly, and truth values
count as one and zero. -/

namespace Klartext

/-- Why data cannot be converted. -/
inductive DataFault where
  /-- An integer is larger than every number. -/
  | integerTooLarge
  /-- The quotient of two integers is larger than every number. -/
  | quotientTooLarge
  | refused (error : RuntimeError)
  deriving Repr, DecidableEq

/-- The message of a fault. -/
def DataFault.message : DataFault → String
  | .integerTooLarge => "int too large to convert to float"
  | .quotientTooLarge => "integer division result too large for a float"
  | .refused e => e.message

/-- The number nearest to an integer. -/
def nearestNumber (n : Int) : Except DataFault Float :=
  match Double.ofInt? n with
  | some x => .ok x
  | none => .error .integerTooLarge

namespace Node

/-- The value that wraps a datum. -/
def wrapped : Node → Except DataFault Value
  | .bare v => .ok v
  | .integer n => (nearestNumber n).map Value.number
  | n => .error (.refused (.notRepresentable n.kind))

/-- A datum as a program shows it. -/
def shown : Node → String
  | .bare v => v.shown
  | n => n.line

/-- What a node puts into a joined string: a number by its text, and what any other node holds as
    it is. -/
def joinable? : Node → Option Node
  | .literal (.number x) => some (.bare (.string (numberText x)))
  | .literal .null => none
  | .literal v => some (.bare v)
  | n => n.held?

/-! ## Data as numbers -/

/-- The integer that a datum is. -/
def integer? : Node → Option Int
  | .integer n => some n
  | .bare (.boolean b) => some (if b then 1 else 0)
  | _ => none

/-- The number that a datum is. -/
def number? : Node → Option (Except DataFault Float)
  | .bare (.number x) => some (.ok x)
  | n => n.integer?.map nearestNumber

/-- The text of a datum that is a number. Integers have all their digits, but they may not be larger
    than every number. -/
def numberText? (n : Node) : Option (Except DataFault String) :=
  match n.integer? with
  | some i => some ((nearestNumber i).map fun _ => toString i)
  | none => n.number?.map fun x => x.map numberText

/-- The quotient of two integers, rounded once. -/
def integerQuotient (m n : Int) : Except DataFault Float :=
  if n = 0 then (nearestNumber m).map fun x => quotient x 0.0
  else
    let magnitude := Double.nearest m.natAbs n.natAbs
    if Double.isFinite magnitude then
      .ok (if (m < 0) == (n < 0) then magnitude else -magnitude)
    else .error .quotientTooLarge

/-- The quotient of two data that are numbers. -/
def quotient? (left right : Node) : Option (Except DataFault Float) :=
  match left.integer?, right.integer? with
  | some m, some n => some (integerQuotient m n)
  | _, _ => do
    let x ← left.number?
    let y ← right.number?
    return do
      return quotient (← x) (← y)

/-! ## Data as operators -/

/-- The operator whose symbol a datum is, or the message that there is none. -/
def operator? (n : Node) : Except String Operator :=
  let unknown := .error s!"Unknown operation: {n.term}"
  match n with
  | .bare (.string s) =>
    match Operator.ofSymbol? s with
    | some op => .ok op
    | none => unknown
  | _ => unknown

end Node

end Klartext
