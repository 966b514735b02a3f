import Klartext.Grammar.Nesting
import Klartext.Proofs.Continued.Expression

set_option autoImplicit false

/-! # The places in a text where statements are read

A program is a row of statements, and functions and conditionals hold further rows in their blocks.
At two kinds of places more text behind the whole may change what is read. One is the definition of a
variable whose name, which may be nearly anything, begins like a function or a spoken operation: that
other form is tried first, and the text that was missing for it may come. The other one is a function
without parameters whose name holds the beginning of a list: the list may come to an end then, and it
may be too long to be read. -/

namespace Klartext

open Reader Rules

namespace Grammar

variable {nested : Nested}

/-! ## Blocks -/

/-- A function up to its block. -/
def functionHead (room : Nat) : Reader (Text × List Text) := do
  phrase "die Funktion"
  let _ ← blanks1
  signature room

/-- A conditional up to the block of its first branch. -/
def firstHead (nested : Nested) : Reader Node := do
  phrase "stimmt,"
  let _ ← blanks1
  clause nested

/-- A further branch up to its block. -/
def elseIfHead (nested : Nested) : Reader Node := do
  let _ ← blanks1
  phrase "doch,"
  let _ ← blanks1
  clause nested

/-- The last branch up to its block. -/
def otherwiseHead : Reader Unit := do
  let _ ← blanks1
  phrase "nicht?"

theorem function_eq : function nested = (do
    let (name, parameters) ← functionHead nested.room
    let body ← manyUntil nested.statement "und endet hier"
    return .function (String.ofList name) (parameters.map String.ofList) body) := by
  simp only [function, functionHead, bind_assoc]

theorem elseIf_eq : elseIf nested = (do
    let condition ← elseIfHead nested
    return ⟨condition, ← body nested⟩) := by
  simp only [elseIf, elseIfHead, bind_assoc]

theorem otherwise_eq : otherwise nested = (do otherwiseHead; body nested) := by
  simp only [otherwise, otherwiseHead, bind_assoc]

theorem conditional_eq : conditional nested = (do
    let condition ← firstHead nested
    let first ← body nested
    let others ← many (elseIf nested)
    let last ← optional (otherwise nested)
    phrase "?"
    return .conditional ⟨condition, first⟩ others last) := by
  simp only [conditional, firstHead, bind_assoc]

/-- The first branches of the conditional at the front of a text stand before a place. -/
def BranchesBefore (nested : Nested) (t u : Text) : Prop :=
  ∃ condition v statements w, firstHead nested t = .found condition v ∧
    body nested v = .found statements w ∧ Reaches (elseIf nested) w u

/-- In the function or the conditional at the front of a text, a block begins. -/
inductive OpensBlock (nested : Nested) (t : Text) : Text → Prop where
  | function {head : Text × List Text} {u : Text}
      (h : functionHead nested.room t = .found head u) : OpensBlock nested t u
  | first {condition : Node} {u : Text} (h : firstHead nested t = .found condition u) :
      OpensBlock nested t u
  | further {u : Text} {condition : Node} {v : Text} (hbefore : BranchesBefore nested t u)
      (h : elseIfHead nested u = .found condition v) : OpensBlock nested t v
  | last {u v : Text} (hbefore : BranchesBefore nested t u) (h : otherwiseHead u = .found () v) :
      OpensBlock nested t v

/-- A statement that is found with so many levels of nesting within it is one at a place of its text,
    or a statement in one of its blocks is. -/
inductive Inside : Nat → Text → Nat → Text → Prop where
  | self {depth : Nat} {t rest : Text} {node : Node}
      (hread : statement (within depth) t = .found node rest) : Inside depth t depth t
  | block {depth inner : Nat} {t u v w rest : Text} {node : Node}
      (hread : statement (within (depth + 1)) t = .found node rest)
      (hopens : OpensBlock (within (depth + 1)) (t.dropWhile isBlank) u)
      (hreaches : Reaches (within (depth + 1)).statement u v) (h : Inside depth v inner w) :
      Inside (depth + 1) t inner w

/-- In a program a statement is found at a place, with so many levels of nesting within it. -/
def StatementAt (limit : Nat) (t : Text) (inner : Nat) (u : Text) : Prop :=
  ∃ depth v, limit = depth + 1 ∧ Reaches (within limit).statement t v ∧ Inside depth v inner u

theorem Inside.exists_found {depth inner : Nat} {t u : Text} (h : Inside depth t inner u) :
    ∃ node rest, statement (within depth) t = .found node rest := by
  cases h with
  | self hread | block hread => exact ⟨_, _, hread⟩

/-! ## Hazards -/

/-- The words with which functions and spoken operations begin, some of them with an article. -/
def misleading : List (List Text) :=
  ("die Funktion" :: (concatForm :: arithmeticForms).map Prod.fst).map fun s =>
    Text.words s.toList

/-- A text is read as the definition of a variable that begins with such words, and gives way to a
    form that is tried before it: with `more` behind the text, that one finds something or breaks
    off. -/
structure GivesWay (depth : Nat) (t more : Text) : Prop where
  definition : ∃ name value rest,
    statement (within depth) t = .found (.definition name value) rest
  begins : ∃ ws ∈ misleading, Begins ws t
  earlier : ∃ form ∈ (forms (within depth)).take 3,
    closed form (t.dropWhile isBlank) = .missed ∧
      closed form (t.dropWhile isBlank ++ more) ≠ .missed

/-- A function up to its parameters. -/
def parametersHead : Reader Text := do
  phrase "die Funktion"
  let _ ← blanks1
  nameUntil " kriegt ".toList [" macht".toList, "!".toList]

/-- In a text that begins like a function with parameters there is no list of them. With `more`
    behind the text, an end of the list has more separators before it than there is room for. -/
def Overlong (room : Nat) (t more : Text) : Prop :=
  ∃ name u i, parametersHead t = .found name u ∧
    listUntil " und macht".toList plainName room u = .missed ∧
    i ∈ Text.occurrences " und macht".toList (u ++ more) ∧
    room < (Enumeration.separators ((u ++ more).take i)).length

/-- What may happen to a text in which statements are read at such places. -/
def hazards (place : Nat → Text → Prop) : Hazards where
  overlong more := ∃ depth u, place depth u ∧
    Overlong (within depth).room (u.dropWhile isBlank) more
  overtaken more := ∃ depth u, place depth u ∧ GivesWay depth u more

/-! ## Places are in the text -/

theorem suffix_of_reaches {α : Type} {D : α → Text → Prop} {p : Reader α} (hp : Reads D p)
    {t u : Text} (h : Reaches p t u) : u <:+ t := by
  induction h with
  | refl => exact List.suffix_refl t
  | tail _ htakes ih =>
      obtain ⟨a, hread⟩ := htakes
      exact (hp.suffix hread).trans ih

theorem reads_functionHead (room : Nat) : Reads (fun _ _ => True) (functionHead room) :=
  (reads_phrase _).bind fun _ _ _ => reads_blanks1.bind fun _ _ _ =>
    (reads_signature room).mono fun _ _ _ => trivial

theorem reads_firstHead (h : nested.Reads) : Reads (fun _ _ => True) (firstHead nested) :=
  (reads_phrase _).bind fun _ _ _ => reads_blanks1.bind fun _ _ _ =>
    (reads_clause h).mono fun _ _ _ => trivial

theorem reads_elseIfHead (h : nested.Reads) : Reads (fun _ _ => True) (elseIfHead nested) :=
  reads_blanks1.bind fun _ _ _ => (reads_phrase _).bind fun _ _ _ => reads_blanks1.bind fun _ _ _ =>
    (reads_clause h).mono fun _ _ _ => trivial

theorem reads_otherwiseHead : Reads (fun _ _ => True) otherwiseHead :=
  reads_blanks1.bind fun _ _ _ => (reads_phrase _).mono fun _ _ _ => trivial

theorem BranchesBefore.suffix (h : nested.Reads) {t u : Text} (hbefore : BranchesBefore nested t u) :
    u <:+ t := by
  obtain ⟨condition, v, statements, w, hfirst, hbody, hreaches⟩ := hbefore
  exact (suffix_of_reaches (reads_elseIf h) hreaches).trans
    (((reads_block h "oder").suffix hbody).trans ((reads_firstHead h).suffix hfirst))

theorem OpensBlock.suffix (h : nested.Reads) {t u : Text} (hopens : OpensBlock nested t u) : u <:+ t := by
  cases hopens with
  | function hhead => exact (reads_functionHead _).suffix hhead
  | first hhead => exact (reads_firstHead h).suffix hhead
  | further hbefore hhead => exact ((reads_elseIfHead h).suffix hhead).trans (hbefore.suffix h)
  | last hbefore hhead => exact (reads_otherwiseHead.suffix hhead).trans (hbefore.suffix h)

theorem Inside.suffix {depth inner : Nat} {t u : Text} (h : Inside depth t inner u) : u <:+ t := by
  induction h with
  | self => exact List.suffix_refl _
  | @block depth inner t u v w rest node _ hopens hreaches _ ih =>
      exact ih.trans ((suffix_of_reaches (reads_within (depth + 1)).statement hreaches).trans
        ((hopens.suffix (reads_within (depth + 1))).trans (List.dropWhile_suffix _)))

theorem StatementAt.suffix {limit inner : Nat} {t u : Text} (h : StatementAt limit t inner u) :
    u <:+ t := by
  obtain ⟨depth, v, rfl, hreaches, hinside⟩ := h
  exact hinside.suffix.trans (suffix_of_reaches (reads_within (depth + 1)).statement hreaches)

end Grammar

end Klartext
