set_option autoImplicit false

/-! # Binary operators

Every operator belongs to exactly one family. An operator has a symbol, under which syntax trees
show it, and a verb, under which messages name it. -/

namespace Klartext

/-- The binary operators. -/
inductive Operator where
  | add
  | subtract
  | multiply
  | divide
  | equal
  | unequal
  | greater
  | atLeast
  | less
  | atMost
  | both
  | either
  | concat
  deriving Repr, DecidableEq

/-- The families of operators. -/
inductive Operator.Family where
  | arithmetic
  | comparison
  | logical
  | string
  deriving Repr, DecidableEq

namespace Operator

/-- All operators, family by family. -/
def all : List Operator :=
  [.add, .subtract, .multiply, .divide, .equal, .unequal, .greater, .atLeast, .less, .atMost,
    .both, .either, .concat]

/-- The symbol of an operator in a syntax tree. -/
def symbol : Operator → String
  | .add => "+"
  | .subtract => "-"
  | .multiply => "*"
  | .divide => "/"
  | .equal => "eq"
  | .unequal => "neq"
  | .greater => "gt"
  | .atLeast => "gte"
  | .less => "lt"
  | .atMost => "lte"
  | .both => "and"
  | .either => "or"
  | .concat => "concat"

/-- The family of an operator. -/
def family : Operator → Family
  | .add | .subtract | .multiply | .divide => .arithmetic
  | .equal | .unequal | .greater | .atLeast | .less | .atMost => .comparison
  | .both | .either => .logical
  | .concat => .string

/-- What a message says could not be done to two operands. -/
def verb : Operator → String
  | .add => "add"
  | .subtract => "subtract"
  | .multiply => "multiply"
  | .divide => "divide"
  | .equal | .unequal => "compare"
  | .greater => "compare (größer als)"
  | .atLeast => "compare (größer als oder gleich)"
  | .less => "compare (kleiner als)"
  | .atMost => "compare (kleiner als oder gleich)"
  | .both => "combine (und)"
  | .either => "combine (oder)"
  | .concat => "concatenate"

/-- The operator with a symbol. -/
def ofSymbol? (s : String) : Option Operator := all.find? fun op => op.symbol == s

theorem ofSymbol?_symbol (op : Operator) : ofSymbol? op.symbol = some op := by
  cases op <;> decide

end Operator

/-- The name of a family of operators. -/
def Operator.Family.name : Operator.Family → String
  | .arithmetic => "arithmetic"
  | .comparison => "comparison"
  | .logical => "logical"
  | .string => "string"

end Klartext
