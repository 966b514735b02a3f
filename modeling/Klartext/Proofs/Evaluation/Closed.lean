import Klartext.Proofs.Evaluation.Perform

set_option autoImplicit false

/-! # What runs are made of

Every run is put together from a few steps: it looks at the state, changes the scopes, leaves events
on record, reads a line, stops with an error. A property that these steps have, and that a sequence
of steps has if its parts do, is a property of every run (`Run.Closed.within`). -/

namespace Klartext

/-- The property holds of the steps that runs are made of, and of what is made of steps that have
    it. -/
structure Run.Closed (P : (α : Type) → Run α → Prop) : Prop where
  pure : ∀ {α : Type} (a : α), P α (pure a)
  throw : ∀ {α : Type} (e : RuntimeError), P α (throw e)
  bind : ∀ {α β : Type} {p : Run α} {f : α → Run β}, P α p → (∀ a, P β (f a)) → P β (p >>= f)
  look : ∀ {α : Type} {f : Machine → Run α}, (∀ m, P α (f m)) → P α (get >>= f)
  record : ∀ event, P Unit (Run.record event)
  updateScopes : ∀ f, P Unit (Run.updateScopes f)
  readLine : ∀ input, P Node (Evaluator.readLine input)

/-- The property holds of all that the evaluator does. -/
structure Evaluator.Has (P : (α : Type) → Run α → Prop) (e : Evaluator) : Prop where
  expression : ∀ scope node, P Node (e.expression scope node)
  statement : ∀ scope node, P Completion (e.statement scope node)

namespace Run.Closed

open Evaluator

variable {P : (α : Type) → Run α → Prop} (h : Run.Closed P)
include h

theorem trace (traced : Bool) (line : String) : P Unit (Run.trace traced line) := by
  cases traced
  · exact h.pure ()
  · exact h.record _

theorem ofExcept {α : Type} (r : Except RuntimeError α) : P α (Run.ofExcept r) := by
  cases r with
  | error e => exact h.throw e
  | ok a => exact h.pure a

theorem builtin (action : Builtin) : P Node (Evaluator.builtin action) := by
  cases action with
  | readLine input => exact h.readLine input
  | constant result => exact h.pure result

theorem bindParameters (scope : ScopeId) (names : List String) (values : List Node) :
    P Unit (Evaluator.bind scope names values) := by
  induction names generalizing values with
  | nil => exact h.pure ()
  | cons name names ih =>
      cases values with
      | nil => exact h.pure ()
      | cons value values => exact h.bind (h.updateScopes _) fun _ => ih values

theorem print (values : List Node) : P Unit (Evaluator.print values) := by
  induction values with
  | nil => exact h.pure ()
  | cons n rest ih => exact h.bind (h.ofExcept _) fun _ => h.bind (h.record _) fun _ => ih

section Rules

variable {e : Evaluator} (he : e.Has P)
include he

theorem expressions (scope : ScopeId) (nodes : List Node) : P _ (e.expressions scope nodes) := by
  induction nodes with
  | nil => exact h.pure []
  | cons n rest ih =>
      exact h.bind (he.expression scope n) fun _ => h.bind ih fun _ => h.pure _

theorem block (scope : ScopeId) (statements : List Node) : P _ (e.block scope statements) := by
  have hfrom (last : Completion) : P _ (e.blockFrom scope last statements) := by
    induction statements generalizing last with
    | nil => exact h.pure last
    | cons s rest ih =>
        refine h.bind (he.statement scope s) fun completion => ?_
        split
        · exact h.pure _
        · exact ih completion
  exact hfrom .nothing

theorem apply (function : Function) (values : List Node) : P _ (e.apply function values) := by
  cases function with
  | builtin _ _ action => exact h.builtin action
  | defined name parameters body closure =>
      refine h.look fun m => h.bind (h.updateScopes _) fun _ =>
        h.bind (h.bindParameters _ _ _) fun _ => h.bind (h.block he _ body) fun completion => ?_
      split <;> exact h.pure _

theorem call (traced : Bool) (scope : ScopeId) (name : String) (arguments : List Node) :
    P _ (e.call traced scope name arguments) := by
  refine h.look fun m => ?_
  split
  · exact h.throw _
  · rename_i function _
    have hcall : P _ (do
        let values ← e.expressions scope arguments
        Run.trace traced s!"Calling {function.name} with {values.length} arguments"
        e.apply function values) :=
      h.bind (h.expressions he scope arguments) fun values =>
        h.bind (h.trace _ _) fun _ => h.apply he function values
    split
    · exact h.bind (h.throw _) fun _ => hcall
    · exact hcall

theorem evaluate (traced : Bool) (scope : ScopeId) (node : Node) :
    P _ (Evaluator.evaluate traced e scope node) := by
  refine h.bind (h.trace _ _) fun _ => ?_
  cases node with
  | literal v => exact h.pure _
  | operation operator left right =>
      exact h.bind (he.expression scope left) fun _ => h.bind (he.expression scope right) fun _ =>
        h.bind (h.ofExcept _) fun _ => h.pure _
  | reference name =>
      refine h.look fun m => ?_
      split
      · exact h.pure _
      · exact h.throw _
  | call name arguments => exact h.call he traced scope name arguments
  | _ => exact h.throw _

theorem choose (scope : ScopeId) (otherwise : Option (List Node)) (branches : List (Branch Node)) :
    P _ (e.choose scope otherwise branches) := by
  induction branches with
  | nil =>
      cases otherwise with
      | none => exact h.pure _
      | some body => exact h.block he scope body
  | cons branch others ih =>
      refine h.bind (he.expression scope branch.condition) fun value => ?_
      split
      · exact h.block he scope branch.body
      · exact ih

theorem execute (traced : Bool) (scope : ScopeId) (node : Node) :
    P _ (Evaluator.execute traced e scope node) := by
  refine h.bind (h.trace _ _) fun _ => ?_
  cases node with
  | evaluation value => exact h.bind (he.expression scope value) fun _ => h.pure _
  | definition name value =>
      exact h.bind (he.expression scope value) fun _ => h.bind (h.updateScopes _) fun _ => h.pure _
  | function name parameters body => exact h.bind (h.updateScopes _) fun _ => h.pure _
  | giveBack value => exact h.bind (he.expression scope value) fun _ => h.pure _
  | print values =>
      exact h.bind (h.expressions he scope values) fun values =>
        h.bind (h.print values) fun _ => h.pure _
  | conditional first others otherwise => exact h.choose he scope otherwise (first :: others)
  | _ => exact h.throw _

theorem statements (scope : ScopeId) (last : Option Node) (nodes : List Node) :
    P _ (e.statements scope last nodes) := by
  induction nodes generalizing last with
  | nil => exact h.pure last
  | cons s rest ih => exact h.bind (he.statement scope s) fun completion => ih completion.node?

end Rules

/-- At every depth, all that the evaluator does has the property. -/
theorem within (traced : Bool) (limit : Nat) : (Evaluator.within traced limit).Has P := by
  induction limit with
  | zero => exact ⟨fun _ _ => h.throw _, fun _ _ => h.throw _⟩
  | succ limit ih => exact ⟨h.evaluate ih traced, h.execute ih traced⟩

end Run.Closed

end Klartext
