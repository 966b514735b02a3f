import Klartext.Proofs.Enumeration.Written
import Klartext.Proofs.Surface.Name

set_option autoImplicit false

/-! # How statements are written

Statements of all six forms as they stand in source text, with single spaces between their parts.
Their names are plain, and the expressions in them are literals and references to plain names.
Statements are nested in functions and in the branches of conditionals, where an empty `nicht?`
branch is not the same as none.

`Statement.form` is the text of a statement without the exclamation mark that closes it. The depth
counts levels of nesting, and it bounds the number of items in the lists of the statement, because
reading a list takes one level for each item. -/

namespace Klartext

namespace Surface

/-! ## Atoms -/

/-- A literal or a reference to a plain name. -/
inductive Atom where
  | literal (l : Literal)
  | reference (name : PlainName)

namespace Atom

def expression : Atom → Expression
  | .literal l => .literal l
  | .reference name => .reference name.slashed

def text (a : Atom) : Text := a.expression.text

def node (a : Atom) : Node := a.expression.node

def overlong? (a : Atom) : Option Nat := a.expression.overlong?

theorem layered (a : Atom) {layer : Layer}
    (hlayer : layer.tightness ≤ Layer.reference.tightness) : Layered layer a.expression := by
  cases a with
  | literal l => exact .literal layer l
  | reference name => exact .reference name.slashed hlayer

theorem depth_eq (a : Atom) : a.expression.depth = 0 := by
  cases a <;> rfl

end Atom

/-! ## Statements -/

/-- The articles before the name of a variable. -/
inductive Article where
  | der
  | die
  | das
  deriving Repr, DecidableEq

def Article.text : Article → Text
  | .der => "der".toList
  | .die => "die".toList
  | .das => "das".toList

/-- A branch of a conditional: its condition and the statements under it. -/
structure Guarded (α : Type) where
  condition : Atom
  body : List α

/-- A written statement. -/
inductive Statement where
  | evaluation (value : Atom)
  | definition (article : Article) (name : PlainName) (value : Atom)
  | function (name : PlainName) (parameters : List PlainName) (body : List Statement)
  | giveBack (value : Atom)
  | print (first : Atom) (others : List Atom)
  | conditional (first : Guarded Statement) (others : List (Guarded Statement))
      (otherwise : Option (List Statement))

namespace Statement

/-- What stands behind the name of a function, up to its body. -/
def parameterText : List PlainName → Text
  | [] => " macht".toList
  | ps =>
    " kriegt ".toList ++
      (Enumeration.enumeration (ps.map PlainName.text) ++ " und macht".toList)

mutual

/-- The text of a statement without its exclamation mark. -/
def form : Statement → Text
  | .evaluation value => value.text
  | .definition article name value =>
    article.text ++ ' ' :: (name.text ++ (" ist ".toList ++ value.text))
  | .function name parameters body =>
    "die Funktion ".toList ++ (name.text ++ (parameterText parameters ++
      (block body ++ " und endet hier".toList)))
  | .giveBack value => "gib ".toList ++ (value.text ++ " zurück".toList)
  | .print first others =>
    "zeig ".toList ++ (Enumeration.enumeration ((first :: others).map Atom.text) ++ " an".toList)
  | .conditional first others otherwise =>
    "stimmt, ".toList ++ (guarded first ++ (branches others ++
      (otherwiseText otherwise ++ "?".toList)))

/-- Statements, each with a space before it. -/
def block : List Statement → Text
  | [] => []
  | s :: ss => ' ' :: (form s ++ '!' :: block ss)

/-- A condition with the statements under it and the `oder` that closes them. -/
def guarded : Guarded Statement → Text
  | ⟨condition, body⟩ =>
    "dass ".toList ++ (condition.text ++ (" ist?".toList ++ (block body ++ " oder".toList)))

def branches : List (Guarded Statement) → Text
  | [] => []
  | g :: gs => " doch, ".toList ++ (guarded g ++ branches gs)

def otherwiseText : Option (List Statement) → Text
  | none => []
  | some ss => " nicht?".toList ++ (block ss ++ " oder".toList)

end

theorem form_definition (article : Article) (name : PlainName) (value : Atom) :
    (definition article name value).form =
      article.text ++ ' ' :: (name.text ++ (" ist ".toList ++ value.text)) := rfl

theorem form_function (name : PlainName) (parameters : List PlainName) (body : List Statement) :
    (function name parameters body).form =
      "die Funktion ".toList ++ (name.text ++ (parameterText parameters ++
        (block body ++ " und endet hier".toList))) := rfl

theorem form_giveBack (value : Atom) :
    (giveBack value).form = "gib ".toList ++ (value.text ++ " zurück".toList) := rfl

theorem form_print (first : Atom) (others : List Atom) :
    (print first others).form =
      "zeig ".toList ++ (Enumeration.enumeration ((first :: others).map Atom.text) ++
        " an".toList) := rfl

theorem form_conditional (first : Guarded Statement) (others : List (Guarded Statement))
    (otherwise : Option (List Statement)) :
    (conditional first others otherwise).form =
      "stimmt, ".toList ++ (guarded first ++ (branches others ++
        (otherwiseText otherwise ++ "?".toList))) := rfl

theorem block_cons (s : Statement) (ss : List Statement) :
    block (s :: ss) = ' ' :: (form s ++ '!' :: block ss) := rfl

theorem guarded_append (condition : Atom) (body : List Statement) (t : Text) :
    guarded ⟨condition, body⟩ ++ t =
      "dass ".toList ++ (condition.text ++ (" ist?".toList ++
        (block body ++ (" oder".toList ++ t)))) := by
  have hguarded : guarded ⟨condition, body⟩ =
      "dass ".toList ++ (condition.text ++ (" ist?".toList ++ (block body ++ " oder".toList))) :=
    rfl
  rw [hguarded]
  simp only [List.append_assoc]

theorem branches_nil : branches [] = [] := rfl

theorem branches_cons (g : Guarded Statement) (gs : List (Guarded Statement)) :
    branches (g :: gs) = " doch, ".toList ++ (guarded g ++ branches gs) := rfl

mutual

def node : Statement → Node
  | .evaluation value => .evaluation value.node
  | .definition _ name value => .definition (String.ofList name.text) value.node
  | .function name parameters body =>
    .function (String.ofList name.text) (parameters.map fun p => String.ofList p.text) (nodes body)
  | .giveBack value => .giveBack value.node
  | .print first others => .print ((first :: others).map Atom.node)
  | .conditional first others otherwise =>
    .conditional (guardedNode first) (branchNodes others) (otherwiseNodes otherwise)

def nodes : List Statement → List Node
  | [] => []
  | s :: ss => node s :: nodes ss

def guardedNode : Guarded Statement → Branch Node
  | ⟨condition, body⟩ => ⟨condition.node, nodes body⟩

def branchNodes : List (Guarded Statement) → List (Branch Node)
  | [] => []
  | g :: gs => guardedNode g :: branchNodes gs

def otherwiseNodes : Option (List Statement) → Option (List Node)
  | none => none
  | some ss => some (nodes ss)

end

mutual

/-- The levels of nesting below a statement. -/
def depth : Statement → Nat
  | .evaluation _ => 1
  | .definition _ _ _ => 1
  | .function _ parameters body => max parameters.length (depths body + 1)
  | .giveBack _ => 1
  | .print _ others => others.length + 1
  | .conditional first others otherwise =>
    max (guardedDepth first) (max (branchDepths others) (otherwiseDepth otherwise)) + 1

def depths : List Statement → Nat
  | [] => 0
  | s :: ss => max (depth s) (depths ss)

def guardedDepth : Guarded Statement → Nat
  | ⟨_, body⟩ => depths body

def branchDepths : List (Guarded Statement) → Nat
  | [] => 0
  | g :: gs => max (guardedDepth g) (branchDepths gs)

def otherwiseDepth : Option (List Statement) → Nat
  | none => 0
  | some ss => depths ss

end

mutual

/-- The number of digits behind a comma in the first number for which that is too large. -/
def overlong? : Statement → Option Nat
  | .evaluation value => value.overlong?
  | .definition _ _ value => value.overlong?
  | .function _ _ body => overlongs? body
  | .giveBack value => value.overlong?
  | .print first others => (first :: others).findSome? Atom.overlong?
  | .conditional first others otherwise =>
    (guardedOverlong? first).or ((branchesOverlong? others).or (otherwiseOverlong? otherwise))

def overlongs? : List Statement → Option Nat
  | [] => none
  | s :: ss => (overlong? s).or (overlongs? ss)

def guardedOverlong? : Guarded Statement → Option Nat
  | ⟨condition, body⟩ => condition.overlong?.or (overlongs? body)

def branchesOverlong? : List (Guarded Statement) → Option Nat
  | [] => none
  | g :: gs => (guardedOverlong? g).or (branchesOverlong? gs)

def otherwiseOverlong? : Option (List Statement) → Option Nat
  | none => none
  | some ss => overlongs? ss

end

/-- The text of a program: its statements with single spaces between them. -/
def program (ss : List Statement) : Text :=
  Text.joinWith [' '] (ss.map fun s => s.form ++ ['!'])

end Statement

end Surface

end Klartext
