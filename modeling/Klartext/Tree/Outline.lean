import Klartext.Tree.Node

set_option autoImplicit false

/-! # Printed trees

A syntax tree is shown in two ways: on one line, as the constructor terms that build it, and as an
indented outline with a line for every field. Both are read off the *outline* of a node, which
keeps of a node only its kind and its named fields. -/

namespace Klartext

/-- The printable structure of a node. -/
inductive Outline where
  /-- A literal: its text on a line of its own, and its constructor term. -/
  | leaf (line term : String)
  /-- Plain data: its text on a line of its own, and its text as a field. -/
  | datum (line term : String)
  /-- A node with fields. -/
  | form (kind : String) (fields : List (String × Outline))
  | items (items : List Outline)

/-! ## Outlines of nodes -/

/-- The word for a truth value in a printed tree. -/
def boolWord (b : Bool) : String := if b then "True" else "False"

/-- The outline of a literal. -/
def Value.leaf : Value → Outline
  | .number x => .leaf s!"Number({technicalText x})" s!"Number(value={technicalText x})"
  | .boolean b => .leaf s!"Boolean({boolWord b})" s!"Boolean(value={boolWord b})"
  | .string s => .leaf s!"String({quoted s})" s!"String(value={quoted s})"
  | .null => .leaf "Null" "Null()"

/-- The outline of a value that no node wraps. -/
def Value.datum : Value → Outline
  | .number x => .datum (technicalText x) (technicalText x)
  | .boolean b => .datum (boolWord b) (boolWord b)
  | .string s => .datum s (quoted s)
  | .null => .datum "None" "None"

mutual

/-- The outline of a node. -/
def Node.outline : Node → Outline
  | .literal v => v.leaf
  | .operation op l r =>
    .form "Operation" [("op", .datum op.symbol (quoted op.symbol)), ("lhs", l.outline),
      ("rhs", r.outline)]
  | .reference name => .form "VariableReference" [("identifier", .datum name (quoted name))]
  | .call name arguments =>
    .form "FunctionCall" [("identifier", .datum name (quoted name)),
      ("arguments", .items (outlines arguments))]
  | .evaluation value => .form "ExpressionStatement" [("value", value.outline)]
  | .definition name value =>
    .form "VariableDefinition" [("identifier", .datum name (quoted name)),
      ("value", value.outline)]
  | .function name parameters body =>
    .form "FunctionDefinition" [("identifier", .datum name (quoted name)),
      ("parameters", .items (parameters.map fun p => .datum p (quoted p))),
      ("body", .items (outlines body))]
  | .giveBack value => .form "Return" [("value", value.outline)]
  | .print values => .form "Print" [("values", .items (outlines values))]
  | .branch b => branchOutline b
  | .conditional first others otherwise =>
    .form "Condition" [("if_", branchOutline first), ("else_ifs", .items (branchOutlines others)),
      ("else_", otherwiseOutline otherwise)]
  | .bare v => v.datum
  | .integer n => .datum (toString n) (toString n)
  | .list items => .items (outlines items)
  | .labelled _ n => n.outline

/-- The outlines of the nodes of a list. -/
def outlines : List Node → List Outline
  | [] => []
  | n :: rest => n.outline :: outlines rest

/-- The outline of a branch. -/
def branchOutline : Branch Node → Outline
  | ⟨condition, body⟩ =>
    .form "Conditional" [("condition", condition.outline), ("body", .items (outlines body))]

/-- The outlines of the branches of a list. -/
def branchOutlines : List (Branch Node) → List Outline
  | [] => []
  | b :: rest => branchOutline b :: branchOutlines rest

/-- The outline of the last part of a conditional, which may be missing. -/
def otherwiseOutline : Option (List Node) → Outline
  | none => .datum "None" "None"
  | some body => .items (outlines body)

end

theorem Node.outline_branch (b : Branch Node) : (Node.branch b).outline = branchOutline b := by
  rw [Node.outline]

theorem outlines_eq_map (ns : List Node) : outlines ns = ns.map Node.outline := by
  induction ns with
  | nil => rw [outlines, List.map_nil]
  | cons n ns ih => rw [outlines, List.map_cons, ih]

theorem branchOutlines_eq_map (bs : List (Branch Node)) :
    branchOutlines bs = bs.map branchOutline := by
  induction bs with
  | nil => rw [branchOutlines, List.map_nil]
  | cons b bs ih => rw [branchOutlines, List.map_cons, ih]

/-! ## One line -/

mutual

/-- The constructor term of an outline. -/
def Outline.term : Outline → String
  | .leaf _ t => t
  | .datum _ t => t
  | .form kind fields => kind ++ "(" ++ ", ".intercalate (fieldTerms fields) ++ ")"
  | .items items => "[" ++ ", ".intercalate (terms items) ++ "]"

/-- The constructor terms of fields, each behind its name. -/
def fieldTerms : List (String × Outline) → List String
  | [] => []
  | (name, o) :: rest => (name ++ "=" ++ o.term) :: fieldTerms rest

/-- The constructor terms of a list. -/
def terms : List Outline → List String
  | [] => []
  | o :: rest => o.term :: terms rest

end

/-- An outline on a line of its own, if it fits on one. -/
def Outline.line : Outline → String
  | .leaf l _ => l
  | .datum l _ => l
  | o => o.term

/-! ## Indented -/

/-- The indentation of a depth: two spaces for each step above zero. -/
def indentation (depth : Int) : String := String.ofList (List.replicate (2 * depth.toNat) ' ')

/-- The indentation of a field of a node that stands at a depth: two spaces more. -/
def fieldIndentation (depth : Int) : String := indentation depth ++ "  "

mutual

/-- The lines of an outline at a depth. A field with an outline of its own is a label with that
    outline below it, two steps further in; plain data stand behind the label. -/
def Outline.lines (depth : Int) : Outline → List String
  | .form kind fields => (indentation depth ++ kind) :: fieldLines depth fields
  | .leaf l _ => [indentation depth ++ l]
  | .datum l _ => [indentation depth ++ l]
  | .items items => [indentation depth ++ "[" ++ ", ".intercalate (terms items) ++ "]"]

/-- The lines of the fields of a node that stands at a depth. -/
def fieldLines (depth : Int) : List (String × Outline) → List String
  | [] => []
  | (name, .datum _ t) :: rest =>
    (fieldIndentation depth ++ name ++ ": " ++ t) :: fieldLines depth rest
  | (name, .items items) :: rest =>
    (fieldIndentation depth ++ name ++ ":") :: (itemLines (depth + 2) items
      ++ fieldLines depth rest)
  | (name, o) :: rest =>
    (fieldIndentation depth ++ name ++ ":") :: (o.lines (depth + 2) ++ fieldLines depth rest)

/-- The lines of the outlines of a list at a depth. -/
def itemLines (depth : Int) : List Outline → List String
  | [] => []
  | o :: rest => o.lines depth ++ itemLines depth rest

end

@[simp] theorem Outline.lines_form (depth : Int) (kind : String)
    (fields : List (String × Outline)) :
    (Outline.form kind fields).lines depth =
      (indentation depth ++ kind) :: fieldLines depth fields := by
  rw [Outline.lines]

@[simp] theorem fieldLines_nil (depth : Int) : fieldLines depth [] = [] := by
  rw [fieldLines]

@[simp] theorem fieldLines_datum (depth : Int) (name line text : String)
    (fields : List (String × Outline)) :
    fieldLines depth ((name, .datum line text) :: fields) =
      (fieldIndentation depth ++ name ++ ": " ++ text) :: fieldLines depth fields := by
  rw [fieldLines]

@[simp] theorem fieldLines_items (depth : Int) (name : String) (items : List Outline)
    (fields : List (String × Outline)) :
    fieldLines depth ((name, .items items) :: fields) =
      (fieldIndentation depth ++ name ++ ":") ::
        (itemLines (depth + 2) items ++ fieldLines depth fields) := by
  rw [fieldLines]

theorem itemLines_eq_flatMap (depth : Int) (items : List Outline) :
    itemLines depth items = items.flatMap (Outline.lines depth) := by
  induction items with
  | nil => rw [itemLines, List.flatMap_nil]
  | cons o items ih => rw [itemLines, List.flatMap_cons, ih]

/-- Lines as text, each closed by a line feed. -/
def linesText (lines : List String) : String := String.join (lines.map (· ++ "\n"))

namespace Node

/-- The constructor term of a node: `Operation(op='+', lhs=Number(value=1.0), rhs=Null())`. -/
def term (n : Node) : String := n.outline.term

/-- A node on one line, a literal in its short form: `Number(1.0)`. -/
def line (n : Node) : String := n.outline.line

/-- A node as an indented outline. -/
def pretty (n : Node) (depth : Int) : String := linesText (n.outline.lines depth)

end Node

end Klartext
