import Klartext.Diagnosis.Place
import Klartext.Reader.Basic

set_option autoImplicit false

/-! # Rejections

What the reader of a program is told when its source is refused: the message, what was expected,
and once the refusal is located in the source, where that is, what stands there, and hints at the
usual slips. -/

namespace Klartext

/-! ## Hints -/

/-- Hints at the usual ways in which a statement goes wrong, for the text at which it begins. -/
def hints (rest : Text) : List String :=
  let statement := Text.trim rest
  let begins (s : String) : Bool := s.toList.isPrefixOf statement
  let lacks (s : String) : Bool := !Text.holds s.toList statement
  let hint (applies : Bool) (text : String) : List String := if applies then [text] else []
  hint (!statement.isEmpty && lacks "!")
    "Every statement ends with '!'"
  ++ hint (begins "führe" && lacks " aus")
    "Function calls end with 'aus': führe <Name> [mit <Argumente>] aus"
  ++ hint (begins "die Funktion" && lacks "und endet hier")
    "Function definitions close with 'und endet hier!'"
  ++ hint (begins "stimmt" && lacks "oder?")
    "Conditionals close with 'oder?!'"
  ++ hint (begins "stimmt" && !Text.holds "dass".toList (statement.takeWhile (· != '?')))
    "Conditions read: stimmt, dass <Ausdruck> ist?"
  ++ hint (begins "/" && statement.count '/' < 2)
    "Variable references are enclosed in slashes: /Name/"
  ++ hint (statement.count '\"' % 2 == 1)
    "A string literal is missing its closing '\"'"

/-! ## Located refusals -/

/-- Where a refusal is located, and what stands there. -/
structure Site where
  filename : String
  offset : Int
  line : Int
  column : Int
  found : Option String
  context : Option String
  hints : List String

/-- A refusal, located or not. -/
structure Rejection where
  refusal : Refusal
  site : Option Site

namespace Rejection

/-- A labelled line, unless there is nothing to show. -/
def labelled (label : String) (shown : Option String) : String :=
  match shown with
  | none => ""
  | some text => if text.isEmpty then "" else s!"  {label}{text}\n"

/-- The full text of a rejection; one that is not located is its message. -/
def text (r : Rejection) : String :=
  match r.site with
  | none => r.refusal.message
  | some site =>
    let expected := ", ".intercalate r.refusal.expected
    s!"Parse error in {site.filename} at line {site.line}, column {site.column}:\n"
      ++ s!"  {r.refusal.message}\n"
      ++ (if r.refusal.expected.isEmpty then "" else s!"  Expected: {expected}\n")
      ++ labelled "Got: " site.found
      ++ labelled "Context:\n" site.context
      ++ (if site.hints.isEmpty then ""
          else "  Suggestions:\n" ++ String.join (site.hints.map fun hint => s!"    - {hint}\n"))

end Rejection

/-- A refusal located in its source. -/
def Refusal.locate (r : Refusal) (source : Text) (filename : String) : Rejection :=
  let offset := Place.offsetOf source r.rest
  let line := Place.lineAt source offset
  let column := Place.columnAt source offset
  { refusal := r
    site := some
      { filename := filename
        offset := offset
        line := line
        column := column
        found := some (Place.found source line column)
        context := some (Place.context source line column 2)
        hints := hints r.rest } }

/-- A rejection that is about no place in a source. -/
def Rejection.unlocated (message : String) : Rejection where
  refusal := { message := message, rest := [], expected := [] }
  site := none

end Klartext
