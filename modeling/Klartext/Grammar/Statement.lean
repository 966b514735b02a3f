import Klartext.Grammar.Expression

set_option autoImplicit false

/-! # The grammar of statements

Six forms, each closed by an exclamation mark with optional whitespace before it. As for
expressions, the rules get the readers for what is nested in them as an argument. -/

namespace Klartext

namespace Grammar

open Reader

/-- `<Ausdruck>`. -/
def evaluation (nested : Nested) : Reader Node := do
  return .evaluation (← nested.expression .logical)

/-- The articles before the name of a variable. -/
def articles : List Text := ["der".toList, "die".toList, "das".toList]

/-- `der|die|das <Name> ist <Ausdruck>`. -/
def definition (nested : Nested) : Reader Node := do
  let _ ← longestOf articles
  let _ ← blanks1
  let name ← nameUntil " ist".toList ["!".toList]
  let _ ← blanks1
  return .definition (String.ofList name) (← nested.expression .logical)

/-- The name of a function and its parameters: `<Name> kriegt <Namen> und macht` or
    `<Name> macht`. -/
def signature (room : Nat) : Reader (Text × List Text) :=
  (do
    let name ← nameUntil " kriegt ".toList [" macht".toList, "!".toList]
    return (name, ← listUntil " und macht".toList plainName room))
  <|> (do return (← nameUntil " macht".toList ["!".toList], []))

/-- `die Funktion <Signatur> <Anweisungen> und endet hier`. -/
def function (nested : Nested) : Reader Node := do
  phrase "die Funktion"
  let _ ← blanks1
  let (name, parameters) ← signature nested.room
  let body ← manyUntil nested.statement "und endet hier"
  return .function (String.ofList name) (parameters.map String.ofList) body

/-- `gib <Ausdruck> zurück`. -/
def giveBack (nested : Nested) : Reader Node := do
  phrase "gib"
  let _ ← blanks1
  let value ← nested.expression .logical
  let _ ← blanks1
  phrase "zurück"
  return .giveBack value

/-- `zeig <Ausdrücke> an`. -/
def print (nested : Nested) : Reader Node := do
  phrase "zeig"
  let _ ← blanks1
  return .print (← listUntil " an".toList (nested.expression .logical) nested.room)

/-! ## Conditionals -/

/-- `dass <Ausdruck> ist?`. -/
def clause (nested : Nested) : Reader Node := do
  phrase "dass"
  let _ ← blanks1
  let condition ← nested.expression .logical
  let _ ← blanks1
  phrase "ist"
  let _ ← blanks
  phrase "?"
  return condition

/-- The statements of a branch with the `oder` that closes them. -/
def body (nested : Nested) : Reader (List Node) := manyUntil nested.statement "oder"

/-- `doch, dass <Ausdruck> ist? <Anweisungen> oder`. -/
def elseIf (nested : Nested) : Reader (Branch Node) := do
  let _ ← blanks1
  phrase "doch,"
  let _ ← blanks1
  let condition ← clause nested
  return ⟨condition, ← body nested⟩

/-- `nicht? <Anweisungen> oder`. -/
def otherwise (nested : Nested) : Reader (List Node) := do
  let _ ← blanks1
  phrase "nicht?"
  body nested

/-- `stimmt, dass <Ausdruck> ist? <Anweisungen> oder`, further branches, and `?`. -/
def conditional (nested : Nested) : Reader Node := do
  phrase "stimmt,"
  let _ ← blanks1
  let condition ← clause nested
  let first ← body nested
  let others ← many (elseIf nested)
  let last ← optional (otherwise nested)
  phrase "?"
  return .conditional ⟨condition, first⟩ others last

/-! ## Statements -/

/-- The forms of a statement, in the order in which they are tried. -/
def forms (nested : Nested) : List (Reader Node) :=
  [evaluation nested, conditional nested, function nested, definition nested, giveBack nested,
    print nested]

/-- A form with the exclamation mark that closes it. -/
def closed (form : Reader Node) : Reader Node := do
  let node ← form
  let _ ← blanks
  phrase "!"
  return node

/-- A statement, with whitespace before it. -/
def statement (nested : Nested) : Reader Node := do
  let _ ← blanks
  firstOf ((forms nested).map closed)

end Grammar

end Klartext
