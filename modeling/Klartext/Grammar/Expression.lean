import Klartext.Reader.Enumeration
import Klartext.Tree.Node

set_option autoImplicit false

/-! # The grammar of expressions

Expressions come in layers, the loosest binding first: logical, comparison, arithmetic, concat,
call, reference, primitive. A layer reads its own forms and otherwise what the next layer reads.

The rules are not recursive. A rule gets the readers for the parts nested in it as a `Nested`
argument; `Klartext.Grammar.Nesting` ties the knot, one level of nesting at a time. -/

namespace Klartext

/-- The layers of expressions, the loosest binding first. -/
inductive Layer where
  | logical
  | comparison
  | arithmetic
  | concat
  | call
  | reference
  | primitive
  deriving Repr, DecidableEq

namespace Layer

/-- All layers, the loosest binding first. -/
def all : List Layer :=
  [.logical, .comparison, .arithmetic, .concat, .call, .reference, .primitive]

/-- The name of a layer. -/
def name : Layer → String
  | .logical => "logical"
  | .comparison => "comparison"
  | .arithmetic => "arithmetic"
  | .concat => "concat"
  | .call => "call"
  | .reference => "reference"
  | .primitive => "primitive"

/-- The layer with a name. -/
def ofName? (s : String) : Option Layer := all.find? fun l => l.name == s

end Layer

/-- The readers for what is nested in a rule. `room` is the number of further levels, which also
    bounds the items of a list. -/
structure Nested where
  room : Nat
  expression : Layer → Reader Node
  statement : Reader Node

namespace Grammar

open Reader

/-! ## Primitives -/

/-- A string between double quotation marks. -/
def string : Reader Node := do
  return .literal (.string (String.ofList (← between ['\"'])))

/-- The value of a whole part and the digits of a fraction. -/
def withFraction (whole : Text) (fraction : Nat) (places : Nat) : Float :=
  Double.nearestDecimal (Layout.natOf whole) 0 + Double.nearest fraction (Nat.pow 10 places)

/-- A number: digits in groups divided by points, and a comma before the fraction: `100.000,5`. -/
def number : Reader Node := do
  let whole ← digits (some '.')
  match ← optional (do phrase ","; digits (some '.')) with
  | none => return .literal (.number (Double.nearestDecimal (Layout.natOf whole) 0))
  | some places =>
    let fraction ← wholeNumber places
    return .literal (.number (withFraction whole fraction places.length))

/-- `wahr` or `falsch`. -/
def boolean : Reader Node :=
  (do let _ ← literal "wahr".toList; return .literal (.boolean true))
  <|> (do let _ ← literal "falsch".toList; return .literal (.boolean false))

/-- `nix`. -/
def null : Reader Node := do
  let _ ← literal "nix".toList
  return .literal .null

/-- The primitive layer: a literal. -/
def primitive : Reader Node := string <|> number <|> boolean <|> null

/-! ## References and calls -/

/-- A variable between slashes: `/Name/`. -/
def variableReference : Reader Node := do
  phrase "/"
  return .reference (String.ofList (← nameUntil "/".toList ["!".toList]))

/-- The reference layer. -/
def reference : Reader Node := variableReference <|> primitive

/-- The refusal of a call's arguments. -/
def argumentsRefusal (name : Text) (rest : Text) : Refusal where
  message := s!"Could not parse the arguments of function call '{String.ofList name}'"
  rest := rest
  expected := ["argument list closed by 'aus'"]

/-- `führe <Name> mit <Argumente> aus` or `führe <Name> aus`. What has come as far as `mit` is a
    call with arguments: if they are wrong, nothing else is tried. -/
def functionCall (nested : Nested) : Reader Node := do
  phrase "führe"
  let _ ← blanks1
  (do
    let name ← nameUntil " mit ".toList [" aus".toList, "!".toList]
    let arguments ← (listUntil " aus".toList (nested.expression .logical) nested.room).orRefuse
      (argumentsRefusal name)
    return .call (String.ofList name) arguments)
  <|> (do
    let name ← nameUntil " aus".toList ["!".toList]
    return .call (String.ofList name) [])

/-- The call layer. -/
def call (nested : Nested) : Reader Node := functionCall nested <|> reference

/-! ## Spoken operations -/

/-- `<phrase> X und Y`. -/
def spoken (form : String × Operator) (operand : Reader Node) : Reader Node := do
  phrase form.1
  let _ ← blanks1
  let left ← operand
  let _ ← blanks1
  phrase "und"
  let _ ← blanks1
  let right ← operand
  return .operation form.2 left right

/-- The phrase of string concatenation. -/
def concatForm : String × Operator := ("die Verknüpfung zwischen", .concat)

/-- The concat layer; the operands are of the same layer. -/
def concat (nested : Nested) : Reader Node :=
  spoken concatForm (nested.expression .concat) <|> call nested

/-- The phrases of arithmetic. -/
def arithmeticForms : List (String × Operator) :=
  [("die Summe von", .add), ("die Differenz von", .subtract), ("das Produkt aus", .multiply),
    ("der Quotient von", .divide)]

/-- The arithmetic layer; the operands are of the same layer. -/
def arithmetic (nested : Nested) : Reader Node :=
  firstOf (arithmeticForms.map fun form => spoken form (nested.expression .arithmetic))
  <|> concat nested

/-! ## Operations between operands -/

/-- What may follow a left operand: an operator with its right operand, or nothing. -/
def tail (operators : List (String × Operator)) (right : Reader Node) (left : Node) :
    Reader Node :=
  firstOf (operators.map fun operator => do
    let _ ← blanks1
    phrase operator.1
    let _ ← blanks1
    return .operation operator.2 left (← right))
  <|> pure left

/-- The comparison operators. A phrase stands before those that begin it. -/
def comparisonOperators : List (String × Operator) :=
  [("nicht gleich", .unequal), ("gleich", .equal), ("größer als oder gleich", .atLeast),
    ("größer als", .greater), ("kleiner als oder gleich", .atMost), ("kleiner als", .less)]

/-- The comparison layer; the right operand is of the same layer. -/
def comparison (nested : Nested) : Reader Node := do
  tail comparisonOperators (nested.expression .comparison) (← arithmetic nested)

/-- The logical operators. -/
def logicalOperators : List (String × Operator) := [("und", .both), ("oder", .either)]

/-- The logical layer; the right operand is of the same layer. -/
def logical (nested : Nested) : Reader Node := do
  tail logicalOperators (nested.expression .logical) (← comparison nested)

/-- The reader of a layer. -/
def expression (nested : Nested) : Layer → Reader Node
  | .logical => logical nested
  | .comparison => comparison nested
  | .arithmetic => arithmetic nested
  | .concat => concat nested
  | .call => call nested
  | .reference => reference
  | .primitive => primitive

end Grammar

end Klartext
