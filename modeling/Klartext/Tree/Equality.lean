import Klartext.Tree.Node

set_option autoImplicit false

/-! # Equality of nodes

Nodes are equal if they are built alike from equal parts. Only numbers need care: they are equal as
numbers, so that zero has one value and an undefined number differs from itself, and where no node
wraps them, whole numbers, truth values and other numbers are compared by their amount. Labels stand
on whole nodes only and count where nodes are operands. -/

namespace Klartext

namespace Node

/-- The whole amount of a datum, if it has one: a truth value counts as one or zero. -/
def whole? : Node → Option Int
  | .integer n => some n
  | .bare (.boolean b) => some (if b then 1 else 0)
  | .bare (.number x) =>
    (Double.wholeMagnitude? x).map fun n => if Double.isNegative x then -(n : Int) else n
  | _ => none

/-- Equality of data that are no lists; nodes of any other kind are equal to no datum. -/
def datumEquals : Node → Node → Bool
  | .bare .null, .bare .null => true
  | .bare (.string s), .bare (.string t) => s == t
  | .bare (.number x), .bare (.number y) => x == y
  | a, b =>
    match a.whole?, b.whole? with
    | some m, some n => m == n
    | _, _ => false

end Node

mutual

/-- Equality of nodes. -/
def Node.equals : Node → Node → Bool
  | .literal v, .literal w => v.equals w
  | .operation o l r, .operation p m s => o == p && l.equals m && r.equals s
  | .reference x, .reference y => x == y
  | .call f a, .call g b => f == g && nodesEqual a b
  | .evaluation m, .evaluation n => m.equals n
  | .definition x m, .definition y n => x == y && m.equals n
  | .function f p a, .function g q b => f == g && p == q && nodesEqual a b
  | .giveBack m, .giveBack n => m.equals n
  | .print a, .print b => nodesEqual a b
  | .branch a, .branch b => branchesEqual a b
  | .conditional a s e, .conditional b t f =>
    branchesEqual a b && branchListsEqual s t && otherwiseEqual e f
  | .list a, .list b => nodesEqual a b
  | m, n => m.datumEquals n
termination_by structural m => m

/-- Equality of lists of nodes. -/
def nodesEqual : List Node → List Node → Bool
  | [], [] => true
  | m :: a, n :: b => m.equals n && nodesEqual a b
  | _, _ => false
termination_by structural a => a

/-- Equality of branches. -/
def branchesEqual : Branch Node → Branch Node → Bool
  | ⟨m, a⟩, ⟨n, b⟩ => m.equals n && nodesEqual a b
termination_by structural a => a

/-- Equality of lists of branches. -/
def branchListsEqual : List (Branch Node) → List (Branch Node) → Bool
  | [], [] => true
  | a :: s, b :: t => branchesEqual a b && branchListsEqual s t
  | _, _ => false
termination_by structural a => a

/-- Equality of the last parts of conditionals, which may be missing. -/
def otherwiseEqual : Option (List Node) → Option (List Node) → Bool
  | none, none => true
  | some a, some b => nodesEqual a b
  | _, _ => false
termination_by structural a => a

end

namespace Node

/-- Equality of what two nodes of one kind hold. Nodes of different kinds and kinds that hold no
    value are never equal. -/
def holdsEqual : Node → Node → Bool
  | .literal v, .literal w => v.equals w
  | .evaluation m, .evaluation n => m.equals n
  | .definition _ m, .definition _ n => m.equals n
  | .giveBack m, .giveBack n => m.equals n
  | _, _ => false

/-- What a node that is no literal holds. -/
def held? : Node → Option Node
  | .evaluation n => some n
  | .definition _ n => some n
  | .giveBack n => some n
  | _ => none

/-- A node that is one and the same holds something equal to itself. Undefined numbers inside of it
    make no difference; only one that it holds directly does. -/
def holdsEqualToItself (n : Node) : Bool :=
  match n.held? with
  | some (.bare (.number x)) => x == x
  | _ => n.held?.isSome

/-- Equality of nodes as operands: they are of the same kind and what they hold is equal. Equal
    labels say that they are one and the same. -/
def equalOperands : Node → Node → Bool
  | .labelled i m, .labelled j n => if i = j then m.holdsEqualToItself else m.holdsEqual n
  | .labelled _ m, n => m.holdsEqual n
  | m, .labelled _ n => m.holdsEqual n
  | m, n => m.holdsEqual n

end Node

end Klartext
