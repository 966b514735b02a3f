import Klartext.Evaluation.RuntimeError
import Klartext.Tree.Equality

set_option autoImplicit false

/-! # Operations on values

Arithmetic and ordering are defined on numbers, `und` and `oder` on truth values, joining on
strings and numbers, and equality on everything. Division never fails: by zero it gives an infinite
number or none. -/

namespace Klartext

/-- The quotient of two numbers. By zero, a number other than zero gives the infinity of the two
    signs together, and zero or an undefined number gives an undefined one. -/
def quotient (x y : Float) : Float :=
  if y == 0 then
    if x == 0 || x.isNaN then Double.undefined
    else if Double.isNegative x == Double.isNegative y then Double.infinite else -Double.infinite
  else x / y

namespace Operator

/-- The result of an operator on two values, if it is defined on values of their types. -/
def onValues? : Operator → Value → Value → Option Value
  | .add, .number x, .number y => some (.number (x + y))
  | .subtract, .number x, .number y => some (.number (x - y))
  | .multiply, .number x, .number y => some (.number (x * y))
  | .divide, .number x, .number y => some (.number (quotient x y))
  | .greater, .number x, .number y => some (.boolean (decide (y < x)))
  | .atLeast, .number x, .number y => some (.boolean (decide (y ≤ x)))
  | .less, .number x, .number y => some (.boolean (decide (x < y)))
  | .atMost, .number x, .number y => some (.boolean (decide (x ≤ y)))
  | .both, .boolean a, .boolean b => some (.boolean (a && b))
  | .either, .boolean a, .boolean b => some (.boolean (a || b))
  | .concat, .string s, .string t => some (.string (s ++ t))
  | .concat, .string s, .number y => some (.string (s ++ numberText y))
  | .concat, .number x, .string t => some (.string (numberText x ++ t))
  | .concat, .number x, .number y => some (.string (numberText x ++ numberText y))
  | .equal, v, w => some (.boolean (v.equals w))
  | .unequal, v, w => some (.boolean (!v.equals w))
  | _, _, _ => none

/-- The result of an operator on two nodes. Equality is defined on all of them, and every other
    operator refuses nodes that are no values. -/
def apply (op : Operator) (left right : Node) : Except RuntimeError Value :=
  let refused := .error (.operands op left.typeName right.typeName)
  match left, right with
  | .literal v, .literal w =>
    match op.onValues? v w with
    | some result => .ok result
    | none => refused
  | _, _ =>
    match op with
    | .equal => .ok (.boolean (left.equalOperands right))
    | .unequal => .ok (.boolean (!left.equalOperands right))
    | _ => refused

end Operator

end Klartext
