import Klartext.Proofs.Evaluation.Frame

set_option autoImplicit false

/-! # The states of a running program

A run starts with one scope, which holds the built-in functions. Whatever a program does, it changes
the state by the few moves of `Machine.Reachable`: a call makes a scope within an existing one, a
name is bound to a value or a function in some scope, input is read, and events are recorded.
`Machine.Reachable` allows these moves in any order, so that it covers every state in the middle of
a run, and `Run.Reaches` shows that nothing that the evaluator does leads out of it.

Two facts about scopes hold in all of these states (`Scopes.WellFormed`): a scope lies within an
older one, and a function of the program closes over the scope that holds it. -/

namespace Klartext

/-! ## Well-formed scopes -/

/-- A scope lies within an older one, and the functions of a scope close over that scope. -/
structure Scopes.WellFormed (scopes : Scopes) : Prop where
  parent_lt : ∀ {id : ScopeId} {s : Scope} {parent : ScopeId},
    scopes[id]? = some s → s.parent = some parent → parent < id
  closure_eq : ∀ {id : ScopeId} {s : Scope} {key name : String} {parameters : List String}
    {body : List Node} {closure : ScopeId}, scopes[id]? = some s →
    (key, .defined name parameters body closure) ∈ s.functions → closure = id

/-- An entry of a table after a name is bound is the new one or an old one. -/
theorem Table.mem_insert {α : Type} {t : Table α} {name key : String} {a b : α}
    (h : (key, b) ∈ t.insert name a) : b = a ∨ (key, b) ∈ t := by
  induction t with
  | nil =>
      simp only [Table.insert, List.mem_singleton, Prod.mk.injEq] at h
      exact .inl h.2
  | cons entry rest ih =>
      obtain ⟨other, c⟩ := entry
      simp only [Table.insert] at h
      split at h
      · rcases List.mem_cons.1 h with heq | hrest
        · exact .inl (Prod.mk.inj heq).2
        · exact .inr (List.mem_cons_of_mem _ hrest)
      · rcases List.mem_cons.1 h with heq | hrest
        · exact .inr (heq ▸ List.mem_cons_self)
        · exact (ih hrest).imp id (List.mem_cons_of_mem _)

/-- A key that stands for something is an entry of the table. -/
theorem Table.mem_of_get? {α : Type} {t : Table α} {name : String} {a : α}
    (h : t.get? name = some a) : (name, a) ∈ t := by
  induction t with
  | nil => cases h
  | cons entry rest ih =>
      obtain ⟨other, b⟩ := entry
      simp only [Table.get?, List.lookup_cons] at h
      split at h
      · rename_i hname
        rw [beq_iff_eq] at hname
        cases h
        exact hname ▸ List.mem_cons_self
      · exact List.mem_cons_of_mem _ (ih h)

namespace Scopes

variable {scopes : Scopes}

/-- A scope among the scopes with one more of them is the new one or an old one. -/
theorem getElem?_add_eq_some {parent : Option ScopeId} {id : ScopeId} {s : Scope}
    (h : (scopes.add parent)[id]? = some s) :
    (id = scopes.size ∧ s = Scope.empty parent) ∨ scopes[id]? = some s := by
  rw [add, Array.getElem?_push] at h
  split at h
  · rename_i hid
    exact .inl ⟨hid, (Option.some.inj h).symm⟩
  · exact .inr h

/-- A scope among the scopes with one of them changed is an old one, which may have been changed. -/
theorem getElem?_modify_eq_some {own id : ScopeId} {f : Scope → Scope} {s : Scope}
    (h : (Array.modify scopes own f)[id]? = some s) :
    ∃ old, scopes[id]? = some old ∧ ((own = id ∧ s = f old) ∨ s = old) := by
  rw [Array.getElem?_modify] at h
  split at h
  · rename_i hid
    obtain ⟨old, hold, rfl⟩ := Option.map_eq_some_iff.1 h
    exact ⟨old, hold, .inl ⟨hid, rfl⟩⟩
  · exact ⟨s, h, .inr rfl⟩

namespace WellFormed

theorem add (h : scopes.WellFormed) {parent : ScopeId} (hparent : parent < scopes.size) :
    (scopes.add (some parent)).WellFormed := by
  refine ⟨?_, ?_⟩
  · intro id s p hs hp
    rcases getElem?_add_eq_some hs with ⟨rfl, rfl⟩ | hold
    · cases hp
      exact hparent
    · exact h.parent_lt hold hp
  · intro id s key name parameters body closure hs hmem
    rcases getElem?_add_eq_some hs with ⟨rfl, rfl⟩ | hold
    · cases hmem
    · exact h.closure_eq hold hmem

theorem setVariable (h : scopes.WellFormed) (scope : ScopeId) (name : String) (value : Node) :
    (scopes.setVariable scope name value).WellFormed := by
  refine ⟨?_, ?_⟩
  · intro id s p hs hp
    obtain ⟨old, hold, ⟨-, rfl⟩ | rfl⟩ := getElem?_modify_eq_some hs
    · exact h.parent_lt hold hp
    · exact h.parent_lt hold hp
  · intro id s key f parameters body closure hs hmem
    obtain ⟨old, hold, ⟨-, rfl⟩ | rfl⟩ := getElem?_modify_eq_some hs
    · exact h.closure_eq hold hmem
    · exact h.closure_eq hold hmem

theorem define (h : scopes.WellFormed) (scope : ScopeId) (name : String)
    (parameters : List String) (body : List Node) :
    (scopes.define scope name parameters body).WellFormed := by
  refine ⟨?_, ?_⟩
  · intro id s p hs hp
    obtain ⟨old, hold, ⟨-, rfl⟩ | rfl⟩ := getElem?_modify_eq_some hs
    · exact h.parent_lt hold hp
    · exact h.parent_lt hold hp
  · intro id s key f parameters' body' closure hs hmem
    obtain ⟨old, hold, ⟨rfl, rfl⟩ | rfl⟩ := getElem?_modify_eq_some hs
    · rcases Table.mem_insert hmem with hnew | hmem'
      · cases hnew
        rfl
      · exact h.closure_eq hold hmem'
    · exact h.closure_eq hold hmem

/-- What is found in a scope or around it is found in a scope that exists. -/
theorem exists_of_searchUp {α : Type} {look : Scope → Option α} {a : α} :
    ∀ (bound : Nat) (id : ScopeId), scopes.searchUp look bound id = some a →
      ∃ (owner : ScopeId) (s : Scope), scopes[owner]? = some s ∧ look s = some a := by
  intro bound
  induction bound with
  | zero => intro id h; cases h
  | succ bound ih =>
      intro id h
      simp only [searchUp] at h
      split at h
      · cases h
      · rename_i s hs
        split at h
        · rename_i b hlook
          exact ⟨id, s, hs, h ▸ hlook⟩
        · split at h
          · exact ih _ h
          · cases h

/-- A function of the program that is found closes over a scope that exists. -/
theorem closure_lt (h : scopes.WellFormed) {id : ScopeId} {key name : String}
    {parameters : List String} {body : List Node} {closure : ScopeId}
    (hfound : scopes.findFunction? id key = some (.defined name parameters body closure)) :
    closure < scopes.size := by
  obtain ⟨owner, s, hs, hlook⟩ := exists_of_searchUp _ _ hfound
  rw [h.closure_eq hs (Table.mem_of_get? hlook)]
  exact (Array.getElem?_eq_some_iff.1 hs).1

end WellFormed

end Scopes

/-! ## Reachable states -/

/-- The states that programs can bring about. -/
inductive Machine.Reachable : Machine → Prop where
  | start (lines : List String) : Reachable (.start lines)
  /-- A call makes a scope within the one over which the function closes. -/
  | enter {m : Machine} (closure : ScopeId) : Reachable m → closure < m.scopes.size →
    Reachable { m with scopes := m.scopes.add (some closure) }
  | bind {m : Machine} (scope : ScopeId) (name : String) (value : Node) : Reachable m →
    Reachable { m with scopes := m.scopes.setVariable scope name value }
  | define {m : Machine} (scope : ScopeId) (name : String) (parameters : List String)
    (body : List Node) : Reachable m →
    Reachable { m with scopes := m.scopes.define scope name parameters body }
  | read {m : Machine} (inputs : Array (List String)) : Reachable m →
    Reachable { m with inputs := inputs }
  | record {m : Machine} (event : Event) : Reachable m →
    Reachable { m with events := m.events.push event }

theorem Machine.Reachable.wellFormed {m : Machine} (h : m.Reachable) : m.scopes.WellFormed := by
  induction h with
  | start lines =>
      -- the first scope lies in no other, and its one function closes over none
      refine ⟨?_, ?_⟩
      · intro id s parent hs hparent
        cases id with
        | zero => cases hs; cases hparent
        | succ id => cases hs
      · intro id s key name parameters body closure hs hmem
        cases id with
        | zero => cases hs; cases List.mem_singleton.1 hmem
        | succ id => cases hs
  | enter closure _ hclosure ih => exact ih.add hclosure
  | bind scope name value _ ih => exact ih.setVariable scope name value
  | define scope name parameters body _ ih => exact ih.define scope name parameters body
  | read inputs _ ih => exact ih
  | record event _ ih => exact ih

/-- From every reachable state, the step ends in a reachable state. -/
def Run.Reaches {α : Type} (step : Run α) : Prop :=
  ∀ m : Machine, m.Reachable → (m.perform step).2.Reachable

namespace Run

variable {α β : Type}

theorem reaches_pure (a : α) : Reaches (pure a : Run α) := fun _ h => h

theorem reaches_throw (e : RuntimeError) : Reaches (throw e : Run α) := fun _ h => h

theorem reaches_bind {p : Run α} {f : α → Run β} (hp : Reaches p) (hf : ∀ a, Reaches (f a)) :
    Reaches (p >>= f) := by
  intro m h
  have hm := hp m h
  rw [Machine.perform_bind]
  rcases hstep : m.perform p with ⟨r, after⟩
  rw [hstep] at hm
  cases r with
  | error e => exact hm
  | ok a => exact hf a after hm

theorem reaches_record (event : Event) : Reaches (record event) := fun _ h => h.record event

theorem reaches_trace (traced : Bool) (line : String) : Reaches (trace traced line) := by
  cases traced
  · exact reaches_pure ()
  · exact reaches_record _

theorem reaches_ofExcept (r : Except RuntimeError α) : Reaches (ofExcept r) := by
  cases r
  · exact reaches_throw _
  · exact reaches_pure _

end Run

namespace Evaluator

open Run

/-- The evaluator for what is nested keeps to the reachable states. -/
structure Reaches (e : Evaluator) : Prop where
  expression : ∀ scope node, Run.Reaches (e.expression scope node)
  statement : ∀ scope node, Run.Reaches (e.statement scope node)

theorem reaches_builtin (action : Builtin) : Run.Reaches (builtin action) := by
  cases action with
  | constant result => exact reaches_pure result
  | readLine input =>
      intro m h
      simp only [builtin, readLine, Machine.perform_get_bind]
      split
      · exact h.read _
      · exact h

theorem reaches_bindParameters (scope : ScopeId) (names : List String) (values : List Node) :
    Run.Reaches (Evaluator.bind scope names values) := by
  induction names generalizing values with
  | nil => exact reaches_pure ()
  | cons name names ih =>
      cases values with
      | nil => exact reaches_pure ()
      | cons value values =>
          exact reaches_bind (fun _ h => h.bind scope name value) fun _ => ih values

theorem reaches_print (values : List Node) : Run.Reaches (print values) := by
  induction values with
  | nil => exact reaches_pure ()
  | cons n rest ih =>
      refine reaches_bind (reaches_ofExcept _) fun value => ?_
      exact reaches_bind (reaches_record _) fun _ => ih

namespace Reaches

variable {e : Evaluator} (he : e.Reaches)

include he

theorem expressions (scope : ScopeId) (nodes : List Node) :
    Run.Reaches (e.expressions scope nodes) := by
  induction nodes with
  | nil => exact reaches_pure []
  | cons n rest ih =>
      refine reaches_bind (he.expression scope n) fun value => ?_
      exact reaches_bind ih fun values => reaches_pure _

theorem block (scope : ScopeId) (statements : List Node) :
    Run.Reaches (e.block scope statements) := by
  suffices h : ∀ last, Run.Reaches (e.blockFrom scope last statements) from h .nothing
  induction statements with
  | nil => exact fun last => reaches_pure last
  | cons s rest ih =>
      intro last
      refine reaches_bind (he.statement scope s) fun completion => ?_
      split
      · exact reaches_pure _
      · exact ih completion

/-- A call whose function closes over an existing scope. -/
theorem apply (function : Function) (values : List Node) (m : Machine) (h : m.Reachable)
    (hclosure : ∀ name parameters body closure,
      function = .defined name parameters body closure → closure < m.scopes.size) :
    (m.perform (e.apply function values)).2.Reachable := by
  cases function with
  | builtin name parameters action => exact reaches_builtin action m h
  | defined name parameters body closure =>
      have hbody : Run.Reaches (e.runBody m.scopes.size parameters values body) := by
        refine reaches_bind (reaches_bindParameters _ parameters values) fun _ => ?_
        refine reaches_bind (he.block _ body) fun completion => ?_
        split <;> exact reaches_pure _
      rw [perform_apply_defined]
      exact hbody _ (h.enter closure (hclosure _ _ _ _ rfl))

/-- A call. The function is found before the arguments are evaluated, which only adds scopes. -/
theorem call (hframes : e.Frames) (traced : Bool) (scope : ScopeId) (name : String)
    (arguments : List Node) : Run.Reaches (call traced e scope name arguments) := by
  intro m h
  simp only [Evaluator.call, Machine.perform_get_bind]
  split
  · exact h
  · rename_i function hfound
    split
    · exact h
    · have hsize := (hframes.expressions scope arguments m).size_le
      have harguments := he.expressions scope arguments m h
      rw [Machine.perform_bind]
      rcases hstep : m.perform (e.expressions scope arguments) with ⟨r, after⟩
      rw [hstep] at hsize harguments
      cases r with
      | error error => exact harguments
      | ok values =>
          simp only [Machine.perform_bind, Machine.perform_trace]
          refine he.apply function values _ ?_ ?_
          · split
            · exact harguments.record _
            · exact harguments
          · -- the scope that the function closes over is still there
            rintro name' parameters body closure rfl
            have hlt := h.wellFormed.closure_lt hfound
            split <;> exact Nat.lt_of_lt_of_le hlt hsize

theorem evaluate (hframes : e.Frames) (traced : Bool) (scope : ScopeId) (node : Node) :
    Run.Reaches (evaluate traced e scope node) := by
  refine reaches_bind (reaches_trace traced _) fun _ => ?_
  split
  · -- a literal
    exact reaches_pure _
  · -- an operation
    rename_i operator left right
    refine reaches_bind (he.expression scope left) fun l => ?_
    refine reaches_bind (he.expression scope right) fun r => ?_
    exact reaches_bind (reaches_ofExcept _) fun v => reaches_pure _
  · -- a reference
    intro m h
    simp only [Machine.perform_get_bind]
    split <;> exact h
  · -- a call
    exact he.call hframes traced scope _ _
  · -- no expression
    exact reaches_throw _

theorem choose (scope : ScopeId) (otherwise : Option (List Node))
    (branches : List (Branch Node)) :
    Run.Reaches (e.choose scope otherwise branches) := by
  induction branches with
  | nil =>
      cases otherwise with
      | none => exact reaches_pure _
      | some body => exact he.block scope body
  | cons branch others ih =>
      refine reaches_bind (he.expression scope branch.condition) fun value => ?_
      split
      · exact he.block scope branch.body
      · exact ih

theorem execute (traced : Bool) (scope : ScopeId) (node : Node) :
    Run.Reaches (execute traced e scope node) := by
  refine reaches_bind (reaches_trace traced _) fun _ => ?_
  split
  · -- an expression
    exact reaches_bind (he.expression scope _) fun _ => reaches_pure _
  · -- a definition of a variable
    refine reaches_bind (he.expression scope _) fun value => ?_
    exact reaches_bind (fun _ h => h.bind scope _ value) fun _ => reaches_pure _
  · -- a definition of a function
    exact reaches_bind (fun _ h => h.define scope _ _ _) fun _ => reaches_pure _
  · -- a return
    exact reaches_bind (he.expression scope _) fun _ => reaches_pure _
  · -- a print
    refine reaches_bind (he.expressions scope _) fun values => ?_
    exact reaches_bind (reaches_print values) fun _ => reaches_pure _
  · -- a conditional
    exact he.choose scope _ _
  · -- no statement
    exact reaches_throw _

end Reaches

/-- Every evaluation that starts in a reachable state ends in one. -/
theorem reaches_within (traced : Bool) (limit : Nat) : (within traced limit).Reaches := by
  induction limit with
  | zero => exact ⟨fun _ _ => reaches_throw _, fun _ _ => reaches_throw _⟩
  | succ limit ih => exact ⟨ih.evaluate (frames_within traced limit) traced, ih.execute traced⟩

end Evaluator

/-- Every program that starts in a reachable state ends in one. -/
theorem Machine.Reachable.interpret {m : Machine} (h : m.Reachable) (traced : Bool) (limit : Nat)
    (program : List Node) : (m.interpret traced limit program).2.Reachable := by
  have hrun : ∀ last, Run.Reaches
      ((Evaluator.within traced limit).statements Machine.root last program) := by
    induction program with
    | nil => exact fun last => Run.reaches_pure last
    | cons s rest ih =>
        exact fun last => Run.reaches_bind ((Evaluator.reaches_within traced limit).statement _ s)
          fun completion => ih completion.node?
  have hm := hrun none m h
  rw [Machine.interpret]
  split
  · rename_i value after heq
    rwa [heq] at hm
  · rename_i error after heq
    rwa [heq] at hm

end Klartext
