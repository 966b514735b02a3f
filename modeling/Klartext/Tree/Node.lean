import Klartext.Value
import Klartext.Tree.Operator

set_option autoImplicit false

/-! # Syntax trees

Expressions and statements are nodes of one type, because a tree handed in from outside may hold
any node in any place; what does not belong there is refused when it is evaluated. The readers of
this library put every node where it belongs. -/

namespace Klartext

/-- A condition with the statements that it guards. -/
structure Branch (α : Type) where
  condition : α
  body : List α

/-- A node of a syntax tree. -/
inductive Node where
  /-- A literal, which is its own value. -/
  | literal (value : Value)
  | operation (operator : Operator) (left right : Node)
  | reference (name : String)
  | call (name : String) (arguments : List Node)
  /-- An expression as a statement: `E!`. -/
  | evaluation (value : Node)
  /-- The definition of a variable: `der N ist E!`. -/
  | definition (name : String) (value : Node)
  | function (name : String) (parameters : List String) (body : List Node)
  /-- The return from a function: `gib E zurück!`. -/
  | giveBack (value : Node)
  | print (values : List Node)
  /-- One branch of a conditional; no statement by itself. -/
  | branch (branch : Branch Node)
  /-- A conditional: its first branch, its further branches, and what is done if none applies. -/
  | conditional (first : Branch Node) (others : List (Branch Node)) (otherwise : Option (List Node))
  /-- A value that no node wraps, in a place where a node is expected. -/
  | bare (value : Value)
  /-- An integer, in a place where a node is expected. -/
  | integer (n : Int)
  /-- A list, in a place where a node is expected. -/
  | list (items : List Node)
  /-- A node handed in from outside as a whole, with the label by which it is told from others that
      are built like it. The label shows nowhere else. -/
  | labelled (label : Nat) (node : Node)

instance : Inhabited Node := ⟨.literal .null⟩

/-- The kind of a literal. -/
def Value.kind : Value → String
  | .number _ => "Number"
  | .boolean _ => "Boolean"
  | .string _ => "String"
  | .null => "Null"

/-- The kind of a value that no node wraps. -/
def Value.bareKind : Value → String
  | .number _ => "float"
  | .boolean _ => "bool"
  | .string _ => "str"
  | .null => "NoneType"

namespace Node

/-- The kind of a node, as traces, messages and printed trees name it. -/
def kind : Node → String
  | .literal v => v.kind
  | .operation .. => "Operation"
  | .reference _ => "VariableReference"
  | .call .. => "FunctionCall"
  | .evaluation _ => "ExpressionStatement"
  | .definition .. => "VariableDefinition"
  | .function .. => "FunctionDefinition"
  | .giveBack _ => "Return"
  | .print _ => "Print"
  | .branch _ => "Conditional"
  | .conditional .. => "Condition"
  | .bare v => v.bareKind
  | .integer _ => "int"
  | .list _ => "list"
  | .labelled _ n => n.kind

/-- The type name of an operand in messages: that of its value, or its kind if it has none. -/
def typeName : Node → String
  | .literal v => v.typeName
  | .labelled _ n => n.typeName
  | n => n.kind

/-- A node counts as true unless it is a literal that counts as false. -/
def isTruthy : Node → Bool
  | .literal v => v.isTruthy
  | .labelled _ n => n.isTruthy
  | _ => true

/-- The node with a label, if it is of a kind that holds a value without being a literal; no others
    need to be told from their like. -/
def handedIn (label : Nat) : Node → Node
  | .evaluation n => .labelled label (.evaluation n)
  | .definition name n => .labelled label (.definition name n)
  | .giveBack n => .labelled label (.giveBack n)
  | n => n

end Node

end Klartext
