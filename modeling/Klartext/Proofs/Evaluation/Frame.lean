import Klartext.Proofs.Evaluation.Perform

set_option autoImplicit false

/-! # What a run leaves alone

A name is always bound in the scope in which a statement runs, and a call runs its body in a scope
of its own. So evaluating an expression changes no scope that was there before, and executing a
statement changes at most the two tables of the scope in which it runs.

`Machine.Frame own` compares the states before and after a step; `Run.Frames own` says that a step
keeps to that frame from every state, whether it gives a result or fails. Each rule of the evaluator
keeps the frame if the evaluator for what is nested in it does (`Evaluator.Frames`), and
`Evaluator.within` ties them together. -/

namespace Klartext

/-! ## Frames -/

/-- Every scope of the state before is the same in the state after, except that the tables of the
    scope `own`, if one is given, may differ. -/
structure Machine.Frame (own : Option ScopeId) (before after : Machine) : Prop where
  size_le : before.scopes.size ≤ after.scopes.size
  parent_eq : ∀ id < before.scopes.size,
    after.scopes[id]?.map Scope.parent = before.scopes[id]?.map Scope.parent
  scope_eq : ∀ id < before.scopes.size, own ≠ some id → after.scopes[id]? = before.scopes[id]?

namespace Machine.Frame

variable {own : Option ScopeId} {m m' m'' : Machine}

theorem of_scopes_eq (h : m'.scopes = m.scopes) : Frame own m m' := by
  refine ⟨Nat.le_of_eq (by rw [h]), ?_, ?_⟩
  · intro id _
    rw [h]
  · intro id _ _
    rw [h]

theorem refl (own : Option ScopeId) (m : Machine) : Frame own m m := of_scopes_eq rfl

theorem trans (h : Frame own m m') (h' : Frame own m' m'') : Frame own m m'' := by
  refine ⟨Nat.le_trans h.size_le h'.size_le, ?_, ?_⟩
  · intro id hid
    rw [h'.parent_eq id (Nat.lt_of_lt_of_le hid h.size_le), h.parent_eq id hid]
  · intro id hid hown
    rw [h'.scope_eq id (Nat.lt_of_lt_of_le hid h.size_le) hown, h.scope_eq id hid hown]

/-- Where nothing is changed at all, no scope has to be excepted. -/
theorem widen (h : Frame none m m') (own : Option ScopeId) : Frame own m m' :=
  ⟨h.size_le, h.parent_eq, fun id hid _ => h.scope_eq id hid (by simp)⟩

/-- A scope made after the first state need not be excepted. -/
theorem of_fresh {id : ScopeId} (hid : m.scopes.size ≤ id) (h : Frame (some id) m m') :
    Frame none m m' := by
  refine ⟨h.size_le, h.parent_eq, fun other hother _ => h.scope_eq other hother ?_⟩
  rintro ⟨⟩
  exact Nat.lt_irrefl id (Nat.lt_of_lt_of_le hother hid)

/-- A change of one scope that keeps its parent. -/
theorem of_modify {id : ScopeId} {f : Scope → Scope} (hf : ∀ s, (f s).parent = s.parent)
    (h : m'.scopes = m.scopes.modify id f) : Frame (some id) m m' := by
  refine ⟨Nat.le_of_eq (by rw [h, Array.size_modify]), ?_, ?_⟩
  · intro other _
    rw [h, Array.getElem?_modify]
    split
    · cases m.scopes[other]? <;> simp [hf]
    · rfl
  · intro other _ hne
    have hne' : id ≠ other := fun heq => hne (congrArg some heq)
    rw [h, Array.getElem?_modify, if_neg hne']

/-- A new scope. -/
theorem of_add {parent : Option ScopeId} (h : m'.scopes = m.scopes.add parent) :
    Frame none m m' := by
  have hkept : ∀ id < m.scopes.size, m'.scopes[id]? = m.scopes[id]? := by
    intro id hid
    rw [h, Scopes.add, Array.getElem?_push, if_neg (by omega)]
  refine ⟨?_, fun id hid => by rw [hkept id hid], fun id hid _ => hkept id hid⟩
  rw [h, Scopes.add, Array.size_push]
  omega

end Machine.Frame

/-! ## Steps -/

/-- The step changes nothing but the tables of the scope `own`, as far as old scopes go. -/
def Run.Frames {α : Type} (own : Option ScopeId) (step : Run α) : Prop :=
  ∀ m : Machine, m.Frame own (m.perform step).2

namespace Run

variable {α β : Type} {own : Option ScopeId}

theorem Frames.widen {step : Run α} (h : Frames none step) (own : Option ScopeId) :
    Frames own step :=
  fun m => (h m).widen own

theorem frames_pure (own : Option ScopeId) (a : α) : Frames own (pure a : Run α) :=
  fun m => .refl own m

theorem frames_throw (own : Option ScopeId) (e : RuntimeError) : Frames own (throw e : Run α) :=
  fun m => .refl own m

theorem frames_bind {p : Run α} {f : α → Run β} (hp : Frames own p) (hf : ∀ a, Frames own (f a)) :
    Frames own (p >>= f) := by
  intro m
  have hm := hp m
  rw [Machine.perform_bind]
  rcases hstep : m.perform p with ⟨r, after⟩
  rw [hstep] at hm
  cases r with
  | error e => exact hm
  | ok a => exact hm.trans (hf a after)

theorem frames_get_bind {f : Machine → Run β} (hf : ∀ m, Frames own (f m)) :
    Frames own (get >>= f) :=
  fun m => hf m m

theorem frames_record (own : Option ScopeId) (event : Event) : Frames own (record event) :=
  fun _ => .of_scopes_eq rfl

theorem frames_trace (own : Option ScopeId) (traced : Bool) (line : String) :
    Frames own (trace traced line) := by
  cases traced
  · exact frames_pure own ()
  · exact frames_record own _

theorem frames_ofExcept (own : Option ScopeId) (r : Except RuntimeError α) :
    Frames own (ofExcept r) := by
  cases r
  · exact frames_throw own _
  · exact frames_pure own _

theorem frames_setVariable (scope : ScopeId) (name : String) (value : Node) :
    Frames (some scope) (updateScopes fun scopes => scopes.setVariable scope name value) :=
  fun _ => .of_modify
    (f := fun s => { s with values := s.values.insert (normalizeName name) value })
    (fun _ => rfl) rfl

theorem frames_define (scope : ScopeId) (name : String) (parameters : List String)
    (body : List Node) :
    Frames (some scope) (updateScopes fun scopes => scopes.define scope name parameters body) :=
  fun _ => .of_modify
    (f := fun s => { s with
      functions := s.functions.insert (normalizeName name) (.defined name parameters body scope) })
    (fun _ => rfl) rfl

end Run

/-! ## The rules -/

namespace Evaluator

open Run

/-- The evaluator keeps every frame: expressions that of nothing, statements that of their scope. -/
structure Frames (e : Evaluator) : Prop where
  expression : ∀ scope node, Run.Frames none (e.expression scope node)
  statement : ∀ scope node, Run.Frames (some scope) (e.statement scope node)

theorem frames_readLine (input : Nat) : Run.Frames none (readLine input) := by
  refine frames_get_bind fun m => ?_
  split
  · exact frames_bind (fun _ => .of_scopes_eq rfl) fun _ => frames_pure none _
  · exact frames_throw none _

theorem frames_builtin (action : Builtin) : Run.Frames none (builtin action) := by
  cases action with
  | readLine input => exact frames_readLine input
  | constant result => exact frames_pure none result

theorem frames_bindParameters (scope : ScopeId) (names : List String) (values : List Node) :
    Run.Frames (some scope) (Evaluator.bind scope names values) := by
  induction names generalizing values with
  | nil => exact frames_pure _ ()
  | cons name names ih =>
      cases values with
      | nil => exact frames_pure _ ()
      | cons value values =>
          exact frames_bind (frames_setVariable scope name value) fun _ => ih values

theorem frames_print (values : List Node) : Run.Frames none (print values) := by
  induction values with
  | nil => exact frames_pure none ()
  | cons n rest ih =>
      refine frames_bind (frames_ofExcept none _) fun value => ?_
      exact frames_bind (frames_record none _) fun _ => ih

namespace Frames

variable {e : Evaluator} (he : e.Frames)

include he

theorem expressions (scope : ScopeId) (nodes : List Node) :
    Run.Frames none (e.expressions scope nodes) := by
  induction nodes with
  | nil => exact frames_pure none []
  | cons n rest ih =>
      refine frames_bind (he.expression scope n) fun value => ?_
      exact frames_bind ih fun values => frames_pure none _

theorem blockFrom (scope : ScopeId) (statements : List Node) (last : Completion) :
    Run.Frames (some scope) (e.blockFrom scope last statements) := by
  induction statements generalizing last with
  | nil => exact frames_pure _ last
  | cons s rest ih =>
      refine frames_bind (he.statement scope s) fun completion => ?_
      split
      · exact frames_pure _ _
      · exact ih completion

theorem block (scope : ScopeId) (statements : List Node) :
    Run.Frames (some scope) (e.block scope statements) :=
  he.blockFrom scope statements .nothing

/-- A call writes to the scope that it makes, which no state before it has. -/
theorem apply (function : Function) (values : List Node) :
    Run.Frames none (e.apply function values) := by
  cases function with
  | builtin name parameters action => exact frames_builtin action
  | defined name parameters body closure =>
      intro m
      let entered : Machine := { m with scopes := m.scopes.add (some closure) }
      have hbody : Run.Frames (some m.scopes.size)
          (e.runBody m.scopes.size parameters values body) := by
        refine frames_bind (frames_bindParameters _ parameters values) fun _ => ?_
        refine frames_bind (he.block _ body) fun completion => ?_
        split <;> exact frames_pure _ _
      have henter : m.Frame none entered := .of_add rfl
      rw [perform_apply_defined]
      exact .of_fresh (Nat.le_refl _) ((henter.widen _).trans (hbody entered))

theorem call (traced : Bool) (scope : ScopeId) (name : String) (arguments : List Node) :
    Run.Frames none (call traced e scope name arguments) := by
  refine frames_get_bind fun m => ?_
  split
  · exact frames_throw none _
  · rename_i function _
    split
    · exact frames_bind (frames_throw none _) fun _ => frames_bind (he.expressions scope arguments)
        fun values => frames_bind (frames_trace none traced _) fun _ => he.apply function values
    · exact frames_bind (he.expressions scope arguments) fun values =>
        frames_bind (frames_trace none traced _) fun _ => he.apply function values

theorem evaluate (traced : Bool) (scope : ScopeId) (node : Node) :
    Run.Frames none (evaluate traced e scope node) := by
  refine frames_bind (frames_trace none traced _) fun _ => ?_
  split
  · -- a literal
    exact frames_pure none _
  · -- an operation
    rename_i operator left right
    refine frames_bind (he.expression scope left) fun l => ?_
    refine frames_bind (he.expression scope right) fun r => ?_
    exact frames_bind (frames_ofExcept none _) fun v => frames_pure none _
  · -- a reference
    refine frames_get_bind fun m => ?_
    split
    · exact frames_pure none _
    · exact frames_throw none _
  · -- a call
    exact he.call traced scope _ _
  · -- no expression
    exact frames_throw none _

theorem choose (scope : ScopeId) (otherwise : Option (List Node))
    (branches : List (Branch Node)) :
    Run.Frames (some scope) (e.choose scope otherwise branches) := by
  induction branches with
  | nil =>
      cases otherwise with
      | none => exact frames_pure _ _
      | some body => exact he.block scope body
  | cons branch others ih =>
      refine frames_bind ((he.expression scope branch.condition).widen _) fun value => ?_
      split
      · exact he.block scope branch.body
      · exact ih

theorem execute (traced : Bool) (scope : ScopeId) (node : Node) :
    Run.Frames (some scope) (execute traced e scope node) := by
  refine frames_bind (frames_trace _ traced _) fun _ => ?_
  split
  · -- an expression
    exact frames_bind ((he.expression scope _).widen _) fun _ => frames_pure _ _
  · -- a definition of a variable
    refine frames_bind ((he.expression scope _).widen _) fun value => ?_
    exact frames_bind (frames_setVariable scope _ value) fun _ => frames_pure _ _
  · -- a definition of a function
    exact frames_bind (frames_define scope _ _ _) fun _ => frames_pure _ _
  · -- a return
    exact frames_bind ((he.expression scope _).widen _) fun _ => frames_pure _ _
  · -- a print
    refine frames_bind ((he.expressions scope _).widen _) fun values => ?_
    exact frames_bind ((frames_print values).widen _) fun _ => frames_pure _ _
  · -- a conditional
    exact he.choose scope _ _
  · -- no statement
    exact frames_throw _ _

end Frames

theorem frames_within (traced : Bool) (limit : Nat) : (within traced limit).Frames := by
  induction limit with
  | zero => exact ⟨fun _ _ => frames_throw none _, fun _ _ => frames_throw _ _⟩
  | succ limit ih => exact ⟨ih.evaluate traced, ih.execute traced⟩

/-! ## Failing statements

The tables of the scope of a statement are written last, after everything that can fail. Only the
bodies of a conditional run in the scope itself, and may fail after others have written to it. -/

end Evaluator

/-- Where the step fails, it has changed no old scope. -/
def Run.FailsCleanly {α : Type} (step : Run α) : Prop :=
  ∀ (m after : Machine) (error : RuntimeError),
    m.perform step = (.error error, after) → m.Frame none after

namespace Run

variable {α β : Type}

theorem Frames.failsCleanly {step : Run α} (h : Frames none step) : FailsCleanly step := by
  intro m after error hstep
  have hm := h m
  rwa [hstep] at hm

theorem failsCleanly_bind {p : Run α} {f : α → Run β} (hp : Frames none p)
    (hf : ∀ a, FailsCleanly (f a)) : FailsCleanly (p >>= f) := by
  intro m after error h
  have hm := hp m
  rw [Machine.perform_bind] at h
  rcases hstep : m.perform p with ⟨r, between⟩
  rw [hstep] at hm h
  cases r with
  | error e =>
      obtain ⟨-, rfl⟩ := Prod.mk.inj h
      exact hm
  | ok a => exact hm.trans (hf a between after error h)

/-- Writing to the scopes does not fail. -/
theorem failsCleanly_updateScopes (f : Scopes → Scopes) (a : α) :
    FailsCleanly (do updateScopes f; return a) := by
  intro m after error h
  cases h

end Run

namespace Evaluator

open Run

theorem Frames.execute_failsCleanly {e : Evaluator} (he : e.Frames) (traced : Bool)
    (scope : ScopeId) (node : Node)
    (hnode : ∀ first others otherwise, node ≠ .conditional first others otherwise) :
    FailsCleanly (Evaluator.execute traced e scope node) := by
  refine failsCleanly_bind (frames_trace none traced _) fun _ => ?_
  split
  · exact failsCleanly_bind (he.expression scope _) fun _ => (frames_pure none _).failsCleanly
  · exact failsCleanly_bind (he.expression scope _) fun _ => failsCleanly_updateScopes _ _
  · exact failsCleanly_updateScopes _ _
  · exact failsCleanly_bind (he.expression scope _) fun _ => (frames_pure none _).failsCleanly
  · refine failsCleanly_bind (he.expressions scope _) fun values => ?_
    exact failsCleanly_bind (frames_print values) fun _ => (frames_pure none _).failsCleanly
  · exact absurd rfl (hnode _ _ _)
  · exact (frames_throw none _).failsCleanly

/-! ## The evaluator -/

/-- Evaluating an expression leaves every old scope as it is. Executing a statement leaves all but
    the tables of its own scope as they are, and these too where a statement other than a
    conditional fails. -/
theorem within_keeps_scopes (traced : Bool) (limit : Nat) (m : Machine) (scope : ScopeId)
    (node : Node) :
    m.Frame none (m.perform ((within traced limit).expression scope node)).2
      ∧ m.Frame (some scope) (m.perform ((within traced limit).statement scope node)).2
      ∧ ((∀ first others otherwise, node ≠ .conditional first others otherwise) →
          ∀ error, (m.perform ((within traced limit).statement scope node)).1 = .error error →
          m.Frame none (m.perform ((within traced limit).statement scope node)).2) := by
  have hframes := frames_within traced limit
  refine ⟨hframes.expression scope node m, hframes.statement scope node m, ?_⟩
  intro hnode error herror
  have hstep : m.perform ((within traced limit).statement scope node) =
      (.error error, (m.perform ((within traced limit).statement scope node)).2) := by
    rw [← herror]
  cases limit with
  | zero => exact .refl none m
  | succ limit =>
      exact (frames_within traced limit).execute_failsCleanly traced scope node hnode _ _ _ hstep

/-- A definition whose value is not defined fails and leaves its scope without the name. -/
theorem within_keeps_scopes_undefined :
    (Machine.start []).Frame none ((Machine.start []).perform
      ((within false 2).statement Machine.root (.definition "a" (.reference "b")))).2 :=
  (within_keeps_scopes false 2 (.start []) Machine.root (.definition "a" (.reference "b"))).2.2
    (fun _ _ _ => nofun) (.undefinedVariable "b") rfl

end Evaluator

end Klartext
