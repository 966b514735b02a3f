import Klartext.Grammar.Nesting
import Klartext.Proofs.Contract.Loop

set_option autoImplicit false

/-! # The rules as extractors

The grammar once more, rule by rule, with the remainders that each rule hands on and the text that it
puts back. Every rule reports the reader that programs are read with, so that nothing that is shown
of the one does not hold of the other (`Extraction.reports_within`). -/

namespace Klartext

open Extractor

/-- The extractors for what is nested in a rule. -/
structure Parts where
  room : Nat
  expression : Layer → Extractor Node
  statement : Extractor Node

/-- The extractors report the readers for what is nested. -/
structure Parts.Report (parts : Parts) (nested : Nested) : Prop where
  room : parts.room = nested.room
  expression : ∀ layer, Reports (parts.expression layer) (nested.expression layer)
  statement : Reports parts.statement nested.statement

namespace Extraction

/-! ## Primitives -/

/-- A string between double quotation marks. -/
def string : Extractor Node := fun t => do
  let (some content, rest) ← enclosed ['\"'] t | return (none, t)
  return (some (.literal (.string (String.ofList content))), rest)

/-- A comma and the digits behind it. -/
def places : Extractor Text :=
  sequence <| .ignore (phrase ",") <| .keep digits fun places => .build places

/-- A number. Where no digits follow the comma, it is not taken. -/
def number : Extractor Node := fun t => do
  let (some whole, rest) ← digits t | return (none, t)
  let (some places, after) ← places rest
    | return (some (.literal (.number (Double.nearestDecimal (Layout.natOf whole) 0))), rest)
  if Reader.digitLimit < places.length then throw (.tooManyDigits places.length)
  else return (some (.literal (.number
    (Grammar.withFraction whole (Layout.natOf places) places.length))), after)

/-- `wahr` or `falsch`. -/
def boolean : Extractor Node := fun t => do
  if let (some _, rest) ← token "wahr".toList t then
    return (some (.literal (.boolean true)), rest)
  let (some _, rest) ← token "falsch".toList t | return (none, t)
  return (some (.literal (.boolean false)), rest)

/-- `nix`. -/
def null : Extractor Node := fun t => do
  let (some _, rest) ← token "nix".toList t | return (none, t)
  return (some (.literal .null), rest)

/-- The primitive layer: a literal. -/
def primitive : Extractor Node := either [string, number, boolean, null]

theorem reports_string : Reports string Grammar.string := by
  intro t
  rw [string, Grammar.string, Reader.bind_apply]
  exact reports_enclosed.elim (fun _ _ hrest => .found hrest) .missed .broken

theorem reports_places :
    Reports places (do Reader.phrase ","; Reader.digits (some '.')) := by
  have hsteps := (Steps.Report.ignore (reports_phrase ",")
    (.keep reports_digits fun places => .build places)).sequence
  rwa [bind_pure] at hsteps

theorem reports_number : Reports number Grammar.number := by
  intro t
  rw [number, Grammar.number, Reader.bind_apply]
  refine reports_digits.elim (fun whole rest hrest => ?_) .missed .broken
  show Answers t (places rest >>= _) ((Reader.optional _ >>= _) rest)
  rw [Reader.bind_apply, Reader.optional, Reader.orElse_apply, Reader.bind_apply]
  refine reports_places.elim (fun places after hafter => ?_) (.found hrest) .broken
  show Answers t
    (if Reader.digitLimit < places.length then .error (.tooManyDigits places.length) else _)
    ((Reader.wholeNumber places >>= _) after)
  rw [Reader.bind_apply, Reader.wholeNumber]
  split
  · exact .broken _
  · exact .found (hafter.trans hrest)

theorem reports_boolean : Reports boolean Grammar.boolean := by
  intro t
  rw [boolean, Grammar.boolean, Reader.orElse_apply, Reader.bind_apply, Reader.bind_apply]
  refine (reports_token "wahr".toList).elim (fun _ _ hrest => .found hrest) ?_ .broken
  exact (reports_token "falsch".toList).elim (fun _ _ hrest => .found hrest) .missed .broken

theorem reports_null : Reports null Grammar.null := by
  intro t
  rw [null, Grammar.null, Reader.bind_apply]
  exact (reports_token "nix".toList).elim (fun _ _ hrest => .found hrest) .missed .broken

theorem reports_primitive : Reports primitive Grammar.primitive :=
  reports_cons reports_string <| reports_cons reports_number <|
    reports_cons reports_boolean <| reports_singleton reports_null

/-! ## References and calls -/

/-- A variable between slashes: `/Name/`. -/
def variableReference : Extractor Node :=
  sequence <| .ignore (phrase "/") <| .keep (nameUntil "/".toList ["!".toList]) fun name =>
    .build (some (.reference (String.ofList name)))

/-- The reference layer. -/
def reference : Extractor Node := either [variableReference, primitive]

/-- The word that begins a call. -/
def callWord : Extractor Unit :=
  sequence <| .ignore (phrase "führe") <| .ignore whitespace1 <| .build (some ())

/-- A call. Both attempts at the name begin behind the word, and without a name the whole text is put
    back. -/
def functionCall (parts : Parts) : Extractor Node := fun t => do
  let (some _, rest) ← callWord t | return (none, t)
  match ← nameUntil " mit ".toList [" aus".toList, "!".toList] rest with
  | (some name, after) =>
    let (some arguments, behind) ← list " aus".toList (parts.expression .logical) parts.room after
      | throw (.refused (Grammar.argumentsRefusal name after))
    return (some (.call (String.ofList name) arguments), behind)
  | (none, _) =>
    let (some name, after) ← nameUntil " aus".toList ["!".toList] rest | return (none, t)
    return (some (.call (String.ofList name) []), after)

/-- The call layer. -/
def call (parts : Parts) : Extractor Node := either [functionCall parts, reference]

theorem reports_variableReference : Reports variableReference Grammar.variableReference :=
  Steps.Report.sequence <| .ignore (reports_phrase "/") <|
    .keep (reports_nameUntil "/".toList ["!".toList]) fun _ => .build _

theorem reports_reference : Reports reference Grammar.reference :=
  reports_cons reports_variableReference <| reports_singleton reports_primitive

theorem reports_callWord :
    Reports callWord (do Reader.phrase "führe"; let _ ← Reader.blanks1; return ()) :=
  Steps.Report.sequence <| .ignore (reports_phrase "führe") <| .ignore reports_whitespace1 <|
    .build ()

section Calls

variable {parts : Parts} {nested : Nested} (h : parts.Report nested)

include h

/-- What raises the refusal of the arguments is that their list has no value. -/
theorem reports_functionCall : Reports (functionCall parts) (Grammar.functionCall nested) := by
  have hreader : Grammar.functionCall nested =
      (do Reader.phrase "führe"; let _ ← Reader.blanks1; return ()) >>= fun _ =>
        (do
          let name ← Reader.nameUntil " mit ".toList [" aus".toList, "!".toList]
          let arguments ← (Reader.listUntil " aus".toList (nested.expression .logical)
            nested.room).orRefuse (Grammar.argumentsRefusal name)
          return .call (String.ofList name) arguments)
        <|> (do
          let name ← Reader.nameUntil " aus".toList ["!".toList]
          return .call (String.ofList name) []) := by
    simp only [Grammar.functionCall, bind_assoc, pure_bind]
  intro t
  rw [functionCall, hreader, Reader.bind_apply]
  refine reports_callWord.elim (fun _ rest hrest => ?_) .missed .broken
  show Answers t (nameUntil " mit ".toList [" aus".toList, "!".toList] rest >>= _)
    (Reader.orElse (_ >>= _) (_ >>= _) rest)
  rw [Reader.orElse, Reader.bind_apply, Reader.bind_apply]
  refine (reports_nameUntil " mit ".toList [" aus".toList, "!".toList]).elim
    (fun name after hafter => ?_) ?_ .broken
  · simp only [h.room, Reader.bind_apply, Reader.orRefuse]
    show Answers t (do
      let (some arguments, behind) ←
          list " aus".toList (parts.expression .logical) nested.room after
        | throw (.refused (Grammar.argumentsRefusal name after))
      return (some (Node.call (String.ofList name) arguments), behind)) _
    exact (reports_list (h.expression .logical) " aus".toList nested.room).elim
      (fun _ _ hbehind => .found (hbehind.trans (hafter.trans hrest))) (.broken _) .broken
  · exact (reports_nameUntil " aus".toList ["!".toList]).elim
      (fun _ _ hafter => .found (hafter.trans hrest)) .missed .broken

theorem reports_call : Reports (call parts) (Grammar.call nested) :=
  reports_cons (reports_functionCall h) <| reports_singleton reports_reference

end Calls

/-! ## Operations -/

/-- `<phrase> X und Y`. -/
def spoken (form : String × Operator) (operand : Extractor Node) : Extractor Node :=
  sequence <| .ignore (phrase form.1) <| .ignore whitespace1 <| .keep operand fun left =>
    .ignore whitespace1 <| .ignore (phrase "und") <| .ignore whitespace1 <|
    .keep operand fun right => .build (some (.operation form.2 left right))

/-- The concat layer. -/
def concat (parts : Parts) : Extractor Node :=
  either [spoken Grammar.concatForm (parts.expression .concat), call parts]

/-- The arithmetic layer. -/
def arithmetic (parts : Parts) : Extractor Node :=
  either [either (Grammar.arithmeticForms.map fun form =>
    spoken form (parts.expression .arithmetic)), concat parts]

/-- An operator with its right operand. -/
def rightOperand (left : Node) (right : Extractor Node) (operator : String × Operator) :
    Extractor Node :=
  sequence <| .ignore whitespace1 <| .ignore (phrase operator.1) <| .ignore whitespace1 <|
    .keep right fun right => .build (some (.operation operator.2 left right))

/-- A left operand and what follows it: an operator with its right operand, or nothing. -/
def infixed (left : Extractor Node) (operators : List (String × Operator))
    (right : Extractor Node) : Extractor Node := fun t => do
  let (some l, rest) ← left t | return (none, t)
  let (some node, after) ← either (operators.map (rightOperand l right)) rest
    | return (some l, rest)
  return (some node, after)

/-- The comparison layer. -/
def comparison (parts : Parts) : Extractor Node :=
  infixed (arithmetic parts) Grammar.comparisonOperators (parts.expression .comparison)

/-- The logical layer. -/
def logical (parts : Parts) : Extractor Node :=
  infixed (comparison parts) Grammar.logicalOperators (parts.expression .logical)

/-- The extractor of a layer. -/
def expression (parts : Parts) : Layer → Extractor Node
  | .logical => logical parts
  | .comparison => comparison parts
  | .arithmetic => arithmetic parts
  | .concat => concat parts
  | .call => call parts
  | .reference => reference
  | .primitive => primitive

theorem reports_spoken {operand : Extractor Node} {p : Reader Node} (h : Reports operand p)
    (form : String × Operator) : Reports (spoken form operand) (Grammar.spoken form p) :=
  Steps.Report.sequence <| .ignore (reports_phrase form.1) <| .ignore reports_whitespace1 <|
    .keep h fun _ => .ignore reports_whitespace1 <| .ignore (reports_phrase "und") <|
    .ignore reports_whitespace1 <| .keep h fun _ => .build _

theorem reports_rightOperand {right : Extractor Node} {p : Reader Node} (h : Reports right p)
    (left : Node) (operator : String × Operator) :
    Reports (rightOperand left right operator) (do
      let _ ← Reader.blanks1
      Reader.phrase operator.1
      let _ ← Reader.blanks1
      return .operation operator.2 left (← p)) :=
  Steps.Report.sequence <| .ignore reports_whitespace1 <| .ignore (reports_phrase operator.1) <|
    .ignore reports_whitespace1 <| .keep h fun _ => .build _

theorem reports_infixed {left right : Extractor Node} {p q : Reader Node} (hleft : Reports left p)
    (hright : Reports right q) (operators : List (String × Operator)) :
    Reports (infixed left operators right) (p >>= Grammar.tail operators q) := by
  intro t
  rw [infixed, Reader.bind_apply]
  refine hleft.elim (fun l rest hrest => ?_) .missed .broken
  show Answers t (either (operators.map (rightOperand l right)) rest >>= _)
    (Grammar.tail operators q l rest)
  rw [Grammar.tail, Reader.orElse_apply]
  exact (reports_either fun operator _ => reports_rightOperand hright l operator).elim
    (fun _ _ hafter => .found (hafter.trans hrest)) (.found hrest) .broken

section Expressions

variable {parts : Parts} {nested : Nested} (h : parts.Report nested)

include h

theorem reports_concat : Reports (concat parts) (Grammar.concat nested) :=
  reports_cons (reports_spoken (h.expression .concat) _) <| reports_singleton (reports_call h)

theorem reports_arithmetic : Reports (arithmetic parts) (Grammar.arithmetic nested) :=
  reports_cons (reports_either fun form _ => reports_spoken (h.expression .arithmetic) form) <|
    reports_singleton (reports_concat h)

theorem reports_comparison : Reports (comparison parts) (Grammar.comparison nested) :=
  reports_infixed (reports_arithmetic h) (h.expression .comparison) _

theorem reports_logical : Reports (logical parts) (Grammar.logical nested) :=
  reports_infixed (reports_comparison h) (h.expression .logical) _

theorem reports_expression (layer : Layer) :
    Reports (expression parts layer) (Grammar.expression nested layer) := by
  cases layer with
  | logical => exact reports_logical h
  | comparison => exact reports_comparison h
  | arithmetic => exact reports_arithmetic h
  | concat => exact reports_concat h
  | call => exact reports_call h
  | reference => exact reports_reference
  | primitive => exact reports_primitive

end Expressions

/-! ## Forms of statements -/

/-- `<Ausdruck>`. -/
def evaluation (parts : Parts) : Extractor Node := fun t => do
  let (some value, rest) ← parts.expression .logical t | return (none, t)
  return (some (.evaluation value), rest)

/-- `der|die|das <Name> ist <Ausdruck>`. -/
def definition (parts : Parts) : Extractor Node :=
  sequence <| .ignore (oneOf Grammar.articles) <| .ignore whitespace1 <|
    .keep (nameUntil " ist".toList ["!".toList]) fun name => .ignore whitespace1 <|
    .keep (parts.expression .logical) fun value =>
    .build (some (.definition (String.ofList name) value))

/-- `<Name> kriegt <Namen> und macht` or `<Name> macht`. -/
def signature (room : Nat) : Extractor (Text × List Text) :=
  either [
    sequence <| .keep (nameUntil " kriegt ".toList [" macht".toList, "!".toList]) fun name =>
      .keep (list " und macht".toList plainName room) fun parameters =>
      .build (some (name, parameters)),
    sequence <| .keep (nameUntil " macht".toList ["!".toList]) fun name =>
      .build (some (name, []))]

/-- `die Funktion <Signatur> <Anweisungen> und endet hier`. -/
def function (parts : Parts) : Extractor Node :=
  sequence <| .ignore (phrase "die Funktion") <| .ignore whitespace1 <|
    .keep (signature parts.room) fun (name, parameters) =>
    .keep (multipleUntil "und endet hier" parts.statement) fun body =>
    .build (some (.function (String.ofList name) (parameters.map String.ofList) body))

/-- `gib <Ausdruck> zurück`. -/
def giveBack (parts : Parts) : Extractor Node :=
  sequence <| .ignore (phrase "gib") <| .ignore whitespace1 <|
    .keep (parts.expression .logical) fun value => .ignore whitespace1 <|
    .ignore (phrase "zurück") <| .build (some (.giveBack value))

/-- `zeig <Ausdrücke> an`. -/
def print (parts : Parts) : Extractor Node :=
  sequence <| .ignore (phrase "zeig") <| .ignore whitespace1 <|
    .keep (list " an".toList (parts.expression .logical) parts.room) fun values =>
    .build (some (.print values))

/-- `dass <Ausdruck> ist?`. -/
def clause (parts : Parts) : Extractor Node :=
  sequence <| .ignore (phrase "dass") <| .ignore whitespace1 <|
    .keep (parts.expression .logical) fun condition => .ignore whitespace1 <|
    .ignore (phrase "ist") <| .ignore whitespace <| .ignore (phrase "?") <|
    .build (some condition)

/-- The statements of a branch with the `oder` that closes them. -/
def body (parts : Parts) : Extractor (List Node) := multipleUntil "oder" parts.statement

/-- `doch, dass <Ausdruck> ist? <Anweisungen> oder`. -/
def elseIf (parts : Parts) : Extractor (Branch Node) :=
  sequence <| .ignore whitespace1 <| .ignore (phrase "doch,") <| .ignore whitespace1 <|
    .keep (clause parts) fun condition => .keep (body parts) fun statements =>
    .build (some ⟨condition, statements⟩)

/-- `nicht? <Anweisungen> oder`. -/
def otherwise (parts : Parts) : Extractor (List Node) :=
  sequence <| .ignore whitespace1 <| .ignore (phrase "nicht?") <|
    .keep (body parts) fun statements => .build (some statements)

/-- `stimmt, dass <Ausdruck> ist? <Anweisungen> oder`, further branches, and `?`. -/
def conditional (parts : Parts) : Extractor Node :=
  sequence <| .ignore (phrase "stimmt,") <| .ignore whitespace1 <|
    .keep (clause parts) fun condition => .keep (body parts) fun first =>
    .keep (many (elseIf parts)) fun others => .keep (optional (otherwise parts)) fun last =>
    .ignore (phrase "?") <| .build (some (.conditional ⟨condition, first⟩ others last))

section Forms

variable {parts : Parts} {nested : Nested} (h : parts.Report nested)

include h

theorem reports_evaluation : Reports (evaluation parts) (Grammar.evaluation nested) := by
  intro t
  rw [evaluation, Grammar.evaluation, Reader.bind_apply]
  exact (h.expression .logical).elim (fun _ _ hrest => .found hrest) .missed .broken

theorem reports_definition : Reports (definition parts) (Grammar.definition nested) :=
  Steps.Report.sequence <| .ignore (reports_oneOf _) <| .ignore reports_whitespace1 <|
    .keep (reports_nameUntil _ _) fun _ => .ignore reports_whitespace1 <|
    .keep (h.expression .logical) fun _ => .build _

omit h in
theorem reports_signature (room : Nat) : Reports (signature room) (Grammar.signature room) :=
  reports_cons
    (Steps.Report.sequence <| .keep (reports_nameUntil _ _) fun _ =>
      .keep (reports_list reports_plainName _ room) fun _ => .build _) <|
    reports_singleton <| Steps.Report.sequence <| .keep (reports_nameUntil _ _) fun _ => .build _

theorem reports_function : Reports (function parts) (Grammar.function nested) :=
  Steps.Report.sequence <| .ignore (reports_phrase _) <| .ignore reports_whitespace1 <|
    .keep (h.room ▸ reports_signature _) fun (_, _) =>
    .keep (reports_multipleUntil h.statement _) fun _ => .build _

theorem reports_giveBack : Reports (giveBack parts) (Grammar.giveBack nested) :=
  Steps.Report.sequence <| .ignore (reports_phrase _) <| .ignore reports_whitespace1 <|
    .keep (h.expression .logical) fun _ => .ignore reports_whitespace1 <|
    .ignore (reports_phrase _) <| .build _

theorem reports_print : Reports (print parts) (Grammar.print nested) :=
  Steps.Report.sequence <| .ignore (reports_phrase _) <| .ignore reports_whitespace1 <|
    .keep (h.room ▸ reports_list (h.expression .logical) _ _) fun _ => .build _

theorem reports_clause : Reports (clause parts) (Grammar.clause nested) :=
  Steps.Report.sequence <| .ignore (reports_phrase _) <| .ignore reports_whitespace1 <|
    .keep (h.expression .logical) fun _ => .ignore reports_whitespace1 <|
    .ignore (reports_phrase _) <| .ignore reports_whitespace <| .ignore (reports_phrase _) <|
    .build _

theorem reports_body : Reports (body parts) (Grammar.body nested) :=
  reports_multipleUntil h.statement _

theorem reports_elseIf : Reports (elseIf parts) (Grammar.elseIf nested) :=
  Steps.Report.sequence <| .ignore reports_whitespace1 <| .ignore (reports_phrase _) <|
    .ignore reports_whitespace1 <| .keep (reports_clause h) fun _ =>
    .keep (reports_body h) fun _ => .build _

theorem reports_otherwise : Reports (otherwise parts) (Grammar.otherwise nested) := by
  have hsteps := (Steps.Report.ignore reports_whitespace1 <| .ignore (reports_phrase "nicht?") <|
    .keep (reports_body h) fun statements => .build statements).sequence
  rwa [bind_pure] at hsteps

theorem reports_conditional : Reports (conditional parts) (Grammar.conditional nested) :=
  Steps.Report.sequence <| .ignore (reports_phrase _) <| .ignore reports_whitespace1 <|
    .keep (reports_clause h) fun _ => .keep (reports_body h) fun _ =>
    .keep (reports_many (reports_elseIf h)) fun _ =>
    .keep (reports_optional (reports_otherwise h)) fun _ => .ignore (reports_phrase _) <| .build _

end Forms

/-! ## Statements -/

/-- The forms of a statement, in the order in which they are tried. -/
def forms (parts : Parts) : List (Extractor Node) :=
  [evaluation parts, conditional parts, function parts, definition parts, giveBack parts,
    print parts]

/-- A form with the exclamation mark that closes it. -/
def closed (form : Extractor Node) : Extractor Node :=
  sequence <| .keep form fun node => .ignore whitespace <| .ignore (phrase "!") <|
    .build (some node)

/-- A statement, with whitespace before it, which is put back too. -/
def statement (parts : Parts) : Extractor Node := fun t => do
  let (_, rest) ← whitespace t
  let (some node, after) ← either ((forms parts).map closed) rest | return (none, t)
  return (some node, after)

theorem reports_closed {form : Extractor Node} {p : Reader Node} (h : Reports form p) :
    Reports (closed form) (Grammar.closed p) :=
  Steps.Report.sequence <| .keep h fun _ => .ignore reports_whitespace <|
    .ignore (reports_phrase _) <| .build _

section Statements

variable {parts : Parts} {nested : Nested} (h : parts.Report nested)

include h

theorem reports_forms : Reports (either ((forms parts).map closed))
    (Reader.firstOf ((Grammar.forms nested).map Grammar.closed)) :=
  reports_cons (reports_closed (reports_evaluation h)) <|
    reports_cons (reports_closed (reports_conditional h)) <|
    reports_cons (reports_closed (reports_function h)) <|
    reports_cons (reports_closed (reports_definition h)) <|
    reports_cons (reports_closed (reports_giveBack h)) <|
    reports_cons (reports_closed (reports_print h)) reports_nil

theorem reports_statement : Reports (statement parts) (Grammar.statement nested) := by
  intro t
  rw [Grammar.statement, Reader.bind_apply]
  show Answers t (either ((forms parts).map closed) (t.dropWhile isBlank) >>= _)
    (Reader.firstOf ((Grammar.forms nested).map Grammar.closed) (t.dropWhile isBlank))
  exact (reports_forms h).elim
    (fun _ _ hafter => .found (hafter.trans (List.dropWhile_suffix isBlank))) .missed .broken

end Statements

/-! ## Nesting -/

/-- The extractors at depth zero. -/
def exhausted : Parts where
  room := 0
  expression _ _ := throw .tooDeep
  statement _ := throw .tooDeep

/-- The extractors for `limit` levels of nesting. -/
def within : (limit : Nat) → Parts
  | 0 => exhausted
  | limit + 1 =>
    let parts := within limit
    { room := limit + 1
      expression := fun layer => expression parts layer
      statement := statement parts }

/-- The statements at the front of a text. -/
def program (limit : Nat) : Extractor (List Node) := many (within limit).statement

theorem reports_within (limit : Nat) : (within limit).Report (Grammar.within limit) := by
  induction limit with
  | zero => exact ⟨rfl, fun _ _ => .broken .tooDeep, fun _ => .broken .tooDeep⟩
  | succ limit ih => exact ⟨rfl, reports_expression ih, reports_statement ih⟩

theorem reports_program (limit : Nat) : Reports (program limit) (Grammar.program limit) :=
  reports_many (reports_within limit).statement

end Extraction

end Klartext
