import Klartext.Evaluation.Session

set_option autoImplicit false

/-! # Performing a step

`Machine.perform` runs a step on a state and gives the result together with the state in which the
step ends, also when it ends in a runtime error. These equations say what that is for each of the
steps from which the evaluator is built, so that no later proof looks into the monad. -/

namespace Klartext

namespace Machine

variable {α β : Type}

@[simp] theorem perform_pure (m : Machine) (a : α) : m.perform (pure a : Run α) = (.ok a, m) := rfl

@[simp] theorem perform_throw (m : Machine) (e : RuntimeError) :
    m.perform (throw e : Run α) = (.error e, m) := rfl

@[simp] theorem perform_get (m : Machine) : m.perform (get : Run Machine) = (.ok m, m) := rfl

@[simp] theorem perform_modify (m : Machine) (f : Machine → Machine) :
    m.perform (modify f : Run PUnit) = (.ok ⟨⟩, f m) := rfl

/-- A step that goes on only where the one before it gave a result. -/
theorem perform_bind (m : Machine) (p : Run α) (f : α → Run β) :
    m.perform (p >>= f) =
      match m.perform p with
      | (.ok a, after) => after.perform (f a)
      | (.error e, after) => (.error e, after) := by
  simp only [perform, bind, EStateM.bind]
  cases p m <;> rfl

theorem perform_bind_of_ok {m after : Machine} {p : Run α} {a : α} (f : α → Run β)
    (h : m.perform p = (.ok a, after)) : m.perform (p >>= f) = after.perform (f a) := by
  rw [perform_bind, h]

theorem perform_bind_of_error {m after : Machine} {p : Run α} {e : RuntimeError} (f : α → Run β)
    (h : m.perform p = (.error e, after)) : m.perform (p >>= f) = (.error e, after) := by
  rw [perform_bind, h]

@[simp] theorem perform_get_bind (m : Machine) (f : Machine → Run β) :
    m.perform (get >>= f) = m.perform (f m) := rfl

@[simp] theorem perform_pure_bind (m : Machine) (a : α) (f : α → Run β) :
    m.perform (pure a >>= f) = m.perform (f a) := rfl

@[simp] theorem perform_throw_bind (m : Machine) (e : RuntimeError) (f : α → Run β) :
    m.perform (throw e >>= f) = (.error e, m) := rfl

@[simp] theorem perform_record (m : Machine) (event : Event) :
    m.perform (Run.record event) = (.ok (), { m with events := m.events.push event }) := rfl

@[simp] theorem perform_updateScopes (m : Machine) (f : Scopes → Scopes) :
    m.perform (Run.updateScopes f) = (.ok (), { m with scopes := f m.scopes }) := rfl

@[simp] theorem perform_ofExcept (m : Machine) (r : Except RuntimeError α) :
    m.perform (Run.ofExcept r) = (r, m) := by
  cases r <;> rfl

/-- A trace line, or nothing at all. -/
theorem perform_trace (m : Machine) (traced : Bool) (line : String) :
    m.perform (Run.trace traced line) =
      (.ok (), if traced then { m with events := m.events.push (.trace line) } else m) := by
  cases traced <;> rfl

end Machine

namespace Evaluator

/-- What a user function does in the scope that is made for it. -/
def runBody (e : Evaluator) (own : ScopeId) (parameters : List String) (values : List Node)
    (body : List Node) : Run Node := do
  Evaluator.bind own parameters values
  match ← e.block own body with
  | .returned n => return n
  | _ => return .literal .null

/-- Applying a user function makes a scope inside the one that it closes over, and runs the body
    there. -/
theorem perform_apply_defined (e : Evaluator) (m : Machine) (name : String)
    (parameters : List String) (body : List Node) (closure : ScopeId) (values : List Node) :
    m.perform (e.apply (.defined name parameters body closure) values) =
      Machine.perform { m with scopes := m.scopes.add (some closure) }
        (e.runBody m.scopes.size parameters values body) := rfl

end Evaluator

end Klartext
