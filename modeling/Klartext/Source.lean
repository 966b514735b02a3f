import Klartext.Grammar.Nesting
import Klartext.Diagnosis.Rejection

set_option autoImplicit false

/-! # Reading source text

A program is a text of statements and whitespace and nothing else, an expression is one expression
with whitespace around it. What keeps a text from being read is located in it, except for a run of
digits that is too long to be converted and a path that is no file; these are faults of another
kind, which no caller turns into a message about the text. -/

namespace Klartext

/-- Why a source text cannot be read. -/
inductive SourceFault where
  | rejected (rejection : Rejection)
  | tooManyDigits (count : Nat)
  | directory (path : String)

/-- The message about a run of digits that is too long to be converted. -/
def tooManyDigitsMessage (count : Nat) : String :=
  s!"Exceeds the limit ({Reader.digitLimit} digits) for integer string conversion: "
    ++ s!"value has {count} digits; use sys.set_int_max_str_digits() to increase the limit"

/-- The message about a path that leads to a directory. -/
def directoryMessage (path : String) : String := s!"[Errno 21] Is a directory: {quoted path}"

namespace Refusal

/-- The refusal of a rest that begins no statement. -/
def statement (rest : Text) : Refusal where
  message := "Could not parse statement"
  rest := Text.trimStart rest
  expected := ["a statement closed by '!'"]

/-- The refusal of a text that is no expression. -/
def expression (text : Text) : Refusal where
  message := "Could not parse expression"
  rest := Text.trimStart text
  expected := ["an expression"]

/-- The refusal of a text that is nested too deeply. -/
def nesting (text : Text) : Refusal where
  message := "Maximum nesting depth exceeded"
  rest := Text.trimStart text
  expected := ["less deeply nested expressions"]

end Refusal

/-- A failure of reading a whole text, located in it. -/
def Failure.toFault (source : Text) (filename : String) : Failure → SourceFault
  | .refused r => .rejected (r.locate source filename)
  | .tooDeep => .rejected ((Refusal.nesting source).locate source filename)
  | .tooManyDigits count => .tooManyDigits count

/-- The statements of a program, nested to less than `limit` levels. -/
def parseProgram (limit : Nat) (source : Text) (filename : String) :
    Except SourceFault (List Node) :=
  match Grammar.program limit source with
  | .found statements rest =>
    if Text.isBlank rest then .ok statements
    else .error (.rejected ((Refusal.statement rest).locate source filename))
  | .missed => .error (.rejected ((Refusal.statement source).locate source filename))
  | .broken e => .error (e.toFault source filename)

theorem parseProgram_eq_ok {limit : Nat} {t : Text} {filename : String} {ss : List Node} :
    parseProgram limit t filename = .ok ss ↔
      ∃ rest, Grammar.program limit t = .found ss rest ∧ Text.isBlank rest = true := by
  rw [parseProgram]
  constructor
  · intro h
    split at h
    · split at h
      · cases h
        exact ⟨_, by assumption, by assumption⟩
      · cases h
    · cases h
    · cases h
  · rintro ⟨rest, hfound, hblank⟩
    rw [hfound]
    exact if_pos hblank

/-- The expression that a text is. -/
def parseExpression (limit : Nat) (source : Text) (filename : String) : Except SourceFault Node :=
  match ((Grammar.within limit).expression .logical).complete source with
  | .found node _ => .ok node
  | .missed => .error (.rejected ((Refusal.expression source).locate source filename))
  | .broken e => .error (e.toFault source filename)

/-- The name of source text that comes from no file. -/
def unnamed : String := "<input>"

end Klartext
