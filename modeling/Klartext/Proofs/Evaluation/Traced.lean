import Klartext.Proofs.Evaluation.Perform

set_option autoImplicit false

/-! # Tracing observes only

A run leaves its trace among the values that it prints. Nothing else depends on whether it does: from
states that agree, a traced run and an untraced one give the same result, change the scopes and the
input alike, and record the same but for the trace (`Machine.Parallel`).

What is printed goes to a *sink*, which sees the values in their order and may stop the run with an
error of its own. The record is the sink that takes everything, so that running with it is just
running (`Evaluator.withinTo_willing`). -/

namespace Klartext

/-! ## Sinks -/

/-- Where printed values go: from all that it has been handed so far, the newest last, a sink decides
    whether to stop the run with an error. -/
abbrev Sink : Type := List Value → Option RuntimeError

/-- The sink that takes every value. -/
def Sink.willing : Sink := fun _ => none

namespace Evaluator

/-- Hands values to a sink one after the other. -/
def hand (sink : Sink) : List Node → Run Unit
  | [] => pure ()
  | n :: rest => do
    let value ← Run.ofExcept n.value?
    Run.record (.printed value)
    match sink (← get).printed with
    | none => hand sink rest
    | some e => throw e

/-- Executes a statement; what it prints itself goes to a sink. -/
def executeTo (sink : Sink) (traced : Bool) (e : Evaluator) (scope : ScopeId) (node : Node) :
    Run Completion :=
  match node with
  | .print values => do
    Run.trace traced s!"Executing: {(Node.print values).kind}"
    hand sink (← e.expressions scope values)
    return .nothing
  | other => execute traced e scope other

/-- The evaluator for `limit` levels of nesting, where everything that is printed goes to a sink. -/
def withinTo (sink : Sink) (traced : Bool) : (limit : Nat) → Evaluator
  | 0 => exhausted
  | limit + 1 =>
    let nested := withinTo sink traced limit
    { expression := evaluate traced nested
      statement := executeTo sink traced nested }

theorem hand_willing : hand .willing = print := by
  funext values
  induction values with
  | nil => rfl
  | cons n rest ih =>
      rw [hand, print, ih]
      rfl

/-- A sink that takes everything changes nothing. -/
theorem withinTo_willing (traced : Bool) (limit : Nat) :
    withinTo .willing traced limit = within traced limit := by
  induction limit with
  | zero => rfl
  | succ limit ih =>
      have hstatement (e : Evaluator) : executeTo .willing traced e = execute traced e := by
        funext scope node
        cases node with
        | print values => rw [executeTo, hand_willing]; rfl
        | _ => rfl
      rw [withinTo, within, ih, hstatement]

end Evaluator

/-! ## Records with and without a trace -/

/-- The event prints a value. -/
def Event.isPrinted : Event → Bool
  | .trace _ => false
  | .printed _ => true

theorem filterMap_value?_filter_isPrinted (events : List Event) :
    (events.filter Event.isPrinted).filterMap Event.value? = events.filterMap Event.value? := by
  induction events with
  | nil => rfl
  | cons event rest ih =>
      cases event with
      | trace line => exact ih
      | printed v => exact congrArg (v :: ·) ih

namespace Machine

/-- The states are the same but for what was traced. -/
structure Agrees (m m' : Machine) : Prop where
  scopes : m.scopes = m'.scopes
  inputs : m.inputs = m'.inputs
  printed : m.printed = m'.printed

/-- Of two runs, the one from `m'` to `after'` ends with the scopes and inputs of the one from `m` to
    `after`, and it has put the same on record, without the trace lines. -/
structure Parallel (m m' after after' : Machine) : Prop where
  scopes : after.scopes = after'.scopes
  inputs : after.inputs = after'.inputs
  events : ∃ news : List Event, after.events.toList = m.events.toList ++ news ∧
    after'.events.toList = m'.events.toList ++ news.filter Event.isPrinted

variable {m m' between between' after after' : Machine}

theorem Agrees.refl (m : Machine) : m.Agrees m := ⟨rfl, rfl, rfl⟩

theorem Agrees.symm (h : m.Agrees m') : m'.Agrees m :=
  ⟨h.scopes.symm, h.inputs.symm, h.printed.symm⟩

theorem Agrees.trans (h : m.Agrees m') (h' : m'.Agrees after) : m.Agrees after :=
  ⟨h.scopes.trans h'.scopes, h.inputs.trans h'.inputs, h.printed.trans h'.printed⟩

theorem Agrees.parallel (h : m.Agrees m') : Parallel m m' m m' :=
  ⟨h.scopes, h.inputs, [], by simp, by simp⟩

theorem Parallel.agrees (h : Parallel m m' after after') (hm : m.Agrees m') :
    after.Agrees after' := by
  obtain ⟨hscopes, hinputs, news, hnews, hnews'⟩ := h
  refine ⟨hscopes, hinputs, ?_⟩
  have hprinted : m.events.toList.filterMap Event.value? =
      m'.events.toList.filterMap Event.value? := hm.printed
  rw [printed, printed, hnews, hnews', List.filterMap_append, List.filterMap_append, hprinted,
    filterMap_value?_filter_isPrinted]

theorem Parallel.trans (h : Parallel m m' between between')
    (h' : Parallel between between' after after') : Parallel m m' after after' := by
  obtain ⟨-, -, news, hnews, hnews'⟩ := h
  obtain ⟨hscopes, hinputs, more, hmore, hmore'⟩ := h'
  refine ⟨hscopes, hinputs, news ++ more, ?_, ?_⟩
  · rw [hmore, hnews, List.append_assoc]
  · rw [hmore', hnews', List.filter_append, List.append_assoc]

end Machine

/-! ## Steps -/

namespace Run

variable {α β : Type}

/-- From states that agree, the second step has the result of the first one and runs parallel to it. -/
def Untraced (p q : Run α) : Prop :=
  ∀ m m' : Machine, m.Agrees m' → (m.perform p).1 = (m'.perform q).1 ∧
    Machine.Parallel m m' (m.perform p).2 (m'.perform q).2

theorem untraced_pure (a : α) : Untraced (pure a : Run α) (pure a) :=
  fun _ _ h => ⟨rfl, h.parallel⟩

theorem untraced_throw (e : RuntimeError) : Untraced (throw e : Run α) (throw e) :=
  fun _ _ h => ⟨rfl, h.parallel⟩

theorem Untraced.bind {p q : Run α} {f g : α → Run β} (h : Untraced p q)
    (hf : ∀ a, Untraced (f a) (g a)) : Untraced (p >>= f) (q >>= g) := by
  intro m m' hm
  obtain ⟨hresult, hparallel⟩ := h m m' hm
  rw [Machine.perform_bind, Machine.perform_bind]
  rcases hp : m.perform p with ⟨result, between⟩
  rcases hq : m'.perform q with ⟨result', between'⟩
  rw [hp, hq] at hresult hparallel
  obtain rfl : result = result' := hresult
  cases result with
  | error e => exact ⟨rfl, hparallel⟩
  | ok a =>
      obtain ⟨hresult, hrest⟩ := hf a between between' (hparallel.agrees hm)
      exact ⟨hresult, hparallel.trans hrest⟩

/-- A step that looks at the state may look at all of it but the trace. -/
theorem untraced_get_bind {f g : Machine → Run β}
    (hf : ∀ m m' : Machine, m.Agrees m' → Untraced (f m) (g m')) :
    Untraced (get >>= f) (get >>= g) :=
  fun m m' hm => hf m m' hm m m' hm

theorem untraced_modify {f : Machine → Machine}
    (hscopes : ∀ m m' : Machine, m.Agrees m' → (f m).scopes = (f m').scopes)
    (hinputs : ∀ m m' : Machine, m.Agrees m' → (f m).inputs = (f m').inputs)
    (hevents : ∀ m : Machine, (f m).events = m.events) :
    Untraced (modify f : Run Unit) (modify f) := fun m m' hm =>
  ⟨rfl, hscopes m m' hm, hinputs m m' hm, [], by simp [hevents], by simp [hevents]⟩

theorem untraced_record (value : Value) :
    Untraced (record (.printed value)) (record (.printed value)) := fun m m' hm =>
  ⟨rfl, hm.scopes, hm.inputs, [.printed value], by simp, by simp; rfl⟩

/-- The one line of the trace that the untraced step leaves out. -/
theorem untraced_trace (line : String) : Untraced (trace true line) (trace false line) :=
  fun m m' hm => ⟨rfl, hm.scopes, hm.inputs, [.trace line], by simp [Machine.perform_trace],
    by simp [Machine.perform_trace]; rfl⟩

theorem untraced_updateScopes (f : Scopes → Scopes) :
    Untraced (updateScopes f) (updateScopes f) :=
  untraced_modify (fun _ _ hm => congrArg f hm.scopes) (fun _ _ hm => hm.inputs) fun _ => rfl

theorem untraced_ofExcept (r : Except RuntimeError α) :
    Untraced (ofExcept r) (ofExcept r) := by
  cases r with
  | error e => exact untraced_throw e
  | ok a => exact untraced_pure a

end Run

namespace Evaluator

open Run

/-- The second evaluator does what the first one does, without a trace. -/
structure Untraced (e e' : Evaluator) : Prop where
  expression : ∀ scope node, Run.Untraced (e.expression scope node) (e'.expression scope node)
  statement : ∀ scope node, Run.Untraced (e.statement scope node) (e'.statement scope node)

/-! ## What nothing is nested in -/

theorem untraced_readLine (input : Nat) : Run.Untraced (readLine input) (readLine input) := by
  refine untraced_get_bind fun m m' hm => ?_
  rw [hm.inputs]
  split
  · refine Run.Untraced.bind ?_ fun _ => untraced_pure _
    refine untraced_modify (fun _ _ hm => hm.scopes) (fun _ _ hm => ?_) fun _ => rfl
    simp only [hm.inputs]
  · exact untraced_throw _

theorem untraced_builtin (action : Builtin) : Run.Untraced (builtin action) (builtin action) := by
  cases action with
  | readLine input => exact untraced_readLine input
  | constant result => exact untraced_pure result

theorem untraced_bindParameters (scope : ScopeId) (names : List String) (values : List Node) :
    Run.Untraced (Evaluator.bind scope names values) (Evaluator.bind scope names values) := by
  induction names generalizing values with
  | nil => exact untraced_pure ()
  | cons name names ih =>
      cases values with
      | nil => exact untraced_pure ()
      | cons value values => exact (untraced_updateScopes _).bind fun _ => ih values

/-- The sink sees the same values in both runs, so that it goes on or stops in both. -/
theorem untraced_hand (sink : Sink) (values : List Node) :
    Run.Untraced (hand sink values) (hand sink values) := by
  induction values with
  | nil => exact untraced_pure ()
  | cons n rest ih =>
      refine (untraced_ofExcept _).bind fun value => (untraced_record value).bind fun _ => ?_
      refine untraced_get_bind fun m m' hm => ?_
      rw [hm.printed]
      split
      · exact ih
      · exact untraced_throw _

/-! ## The rules -/

namespace Untraced

variable {e e' : Evaluator} (he : e.Untraced e')
include he

theorem expressions (scope : ScopeId) (nodes : List Node) :
    Run.Untraced (e.expressions scope nodes) (e'.expressions scope nodes) := by
  induction nodes with
  | nil => exact untraced_pure []
  | cons n rest ih =>
      exact (he.expression scope n).bind fun _ => ih.bind fun _ => untraced_pure _

theorem block (scope : ScopeId) (statements : List Node) :
    Run.Untraced (e.block scope statements) (e'.block scope statements) := by
  have hfrom (last : Completion) :
      Run.Untraced (e.blockFrom scope last statements) (e'.blockFrom scope last statements) := by
    induction statements generalizing last with
    | nil => exact untraced_pure last
    | cons s rest ih =>
        refine (he.statement scope s).bind fun completion => ?_
        split
        · exact untraced_pure _
        · exact ih completion
  exact hfrom .nothing

theorem apply (function : Function) (values : List Node) :
    Run.Untraced (e.apply function values) (e'.apply function values) := by
  cases function with
  | builtin _ _ action => exact untraced_builtin action
  | defined name parameters body closure =>
      refine untraced_get_bind fun m m' hm => ?_
      simp only [hm.scopes]
      refine (untraced_updateScopes _).bind fun _ => ?_
      refine (untraced_bindParameters _ _ _).bind fun _ => (he.block _ body).bind fun completion => ?_
      split <;> exact untraced_pure _

theorem call (scope : ScopeId) (name : String) (arguments : List Node) :
    Run.Untraced (e.call true scope name arguments) (e'.call false scope name arguments) := by
  refine untraced_get_bind fun m m' hm => ?_
  rw [hm.scopes]
  split
  · exact untraced_throw _
  · rename_i function _
    have hcall : Run.Untraced
        (do
          let values ← e.expressions scope arguments
          Run.trace true s!"Calling {function.name} with {values.length} arguments"
          e.apply function values)
        (do
          let values ← e'.expressions scope arguments
          Run.trace false s!"Calling {function.name} with {values.length} arguments"
          e'.apply function values) :=
      (he.expressions scope arguments).bind fun values =>
        (untraced_trace _).bind fun _ => he.apply function values
    split
    · exact (untraced_throw _).bind fun _ => hcall
    · exact hcall

theorem evaluate (scope : ScopeId) (node : Node) :
    Run.Untraced (evaluate true e scope node) (evaluate false e' scope node) := by
  refine (untraced_trace _).bind fun _ => ?_
  cases node with
  | literal v => exact untraced_pure _
  | operation operator left right =>
      exact (he.expression scope left).bind fun _ => (he.expression scope right).bind fun _ =>
        (untraced_ofExcept _).bind fun _ => untraced_pure _
  | reference name =>
      refine untraced_get_bind fun m m' hm => ?_
      rw [hm.scopes]
      split
      · exact untraced_pure _
      · exact untraced_throw _
  | call name arguments => exact he.call scope name arguments
  | _ => exact untraced_throw _

theorem choose (scope : ScopeId) (otherwise : Option (List Node)) (branches : List (Branch Node)) :
    Run.Untraced (e.choose scope otherwise branches) (e'.choose scope otherwise branches) := by
  induction branches with
  | nil =>
      cases otherwise with
      | none => exact untraced_pure _
      | some body => exact he.block scope body
  | cons branch others ih =>
      refine (he.expression scope branch.condition).bind fun value => ?_
      split
      · exact he.block scope branch.body
      · exact ih

theorem executeTo (sink : Sink) (scope : ScopeId) (node : Node) :
    Run.Untraced (executeTo sink true e scope node) (executeTo sink false e' scope node) := by
  cases node with
  | print values =>
      exact (untraced_trace _).bind fun _ => (he.expressions scope values).bind fun values =>
        (untraced_hand sink values).bind fun _ => untraced_pure _
  | evaluation value =>
      exact (untraced_trace _).bind fun _ => (he.expression scope value).bind fun _ =>
        untraced_pure _
  | definition name value =>
      exact (untraced_trace _).bind fun _ => (he.expression scope value).bind fun _ =>
        (untraced_updateScopes _).bind fun _ => untraced_pure _
  | function name parameters body =>
      exact (untraced_trace _).bind fun _ => (untraced_updateScopes _).bind fun _ =>
        untraced_pure _
  | giveBack value =>
      exact (untraced_trace _).bind fun _ => (he.expression scope value).bind fun _ =>
        untraced_pure _
  | conditional first others otherwise =>
      exact (untraced_trace _).bind fun _ => he.choose scope otherwise (first :: others)
  | _ => exact (untraced_trace _).bind fun _ => untraced_throw _

theorem statements (scope : ScopeId) (last : Option Node) (nodes : List Node) :
    Run.Untraced (e.statements scope last nodes) (e'.statements scope last nodes) := by
  induction nodes generalizing last with
  | nil => exact untraced_pure last
  | cons s rest ih => exact (he.statement scope s).bind fun completion => ih completion.node?

end Untraced

/-- At every depth and with every sink, evaluating without a trace does what evaluating with one
    does. -/
theorem untraced_withinTo (sink : Sink) (limit : Nat) :
    (withinTo sink true limit).Untraced (withinTo sink false limit) := by
  induction limit with
  | zero => exact ⟨fun _ _ => untraced_throw _, fun _ _ => untraced_throw _⟩
  | succ limit ih => exact ⟨ih.evaluate, ih.executeTo sink⟩

end Evaluator

/-! ## Sessions -/

namespace Session

/-- Runs the statements of a program; what they print goes to a sink. -/
def interpretTo (s : Session) (sink : Sink) (program : List Node) : Outcome × Session :=
  match s.machine.perform
    ((Evaluator.withinTo sink s.traced s.limits.run).statements Machine.root none program) with
  | (.ok value, after) => (.finished value, { s with machine := after })
  | (.error e, after) => (.stopped e, { s with machine := after })

/-- Reads a source text and runs it; what it prints goes to a sink. -/
def runTo (s : Session) (sink : Sink) (source : String) : Except SourceFault (Outcome × Session) :=
  match parseProgram s.limits.source source.toList unnamed with
  | .ok program => .ok ((s.recordParsed program unnamed).interpretTo sink program)
  | .error (.rejected r) => .ok (.rejected r, s)
  | .error fault => .error fault

theorem interpretTo_willing (s : Session) (program : List Node) :
    s.interpretTo .willing program = s.interpret program := by
  rw [interpretTo, interpret, Machine.interpret, Evaluator.withinTo_willing]
  rcases s.machine.perform _ with ⟨_ | _, _⟩ <;> rfl

/-- Running with a sink that takes everything is running. -/
theorem runTo_willing (s : Session) (source : String) : s.runTo .willing source = s.run source := by
  rw [runTo, run]
  cases parseProgram s.limits.source source.toList unnamed with
  | ok program => exact congrArg Except.ok (interpretTo_willing _ program)
  | error fault => cases fault <;> rfl

/-- Two runs from a state, the first with a trace: they end in the same fault; or they have the same
    outcome and end with the same scopes, the same input left and the same values printed, and they
    recorded the same but for the trace. -/
def Observed (m : Machine) : (traced untraced : Except SourceFault (Outcome × Session)) → Prop
  | .ok (outcome, s), .ok (outcome', s') =>
    outcome = outcome' ∧ s.machine.Agrees s'.machine ∧ Machine.Parallel m m s.machine s'.machine
  | .error fault, .error fault' => fault = fault'
  | _, _ => False

theorem untraced_interpretTo {m m' : Machine} (hm : m.Agrees m') (limits : Limits) (sink : Sink)
    (program : List Node) :
    (interpretTo ⟨m, true, limits⟩ sink program).1 =
        (interpretTo ⟨m', false, limits⟩ sink program).1 ∧
      Machine.Parallel m m' (interpretTo ⟨m, true, limits⟩ sink program).2.machine
        (interpretTo ⟨m', false, limits⟩ sink program).2.machine := by
  obtain ⟨hresult, hparallel⟩ := (Evaluator.untraced_withinTo sink limits.run).statements
    Machine.root none program m m' hm
  rw [interpretTo, interpretTo]
  rcases hp : m.perform ((Evaluator.withinTo sink true limits.run).statements Machine.root none
    program) with ⟨result, after⟩
  rcases hq : m'.perform ((Evaluator.withinTo sink false limits.run).statements Machine.root none
    program) with ⟨result', after'⟩
  rw [hp, hq] at hresult hparallel
  obtain rfl : result = result' := hresult
  cases result <;> exact ⟨rfl, hparallel⟩

/-- Before a program is run, a traced session has one more line on record. -/
theorem parallel_recordParsed (m : Machine) (limits : Limits) (program : List Node)
    (filename : String) :
    Machine.Parallel m m (recordParsed ⟨m, true, limits⟩ program filename).machine m :=
  ⟨rfl, rfl, [.trace s!"Parsed {program.length} statements from {filename}"],
    by simp [recordParsed], by simp; rfl⟩

theorem observed_runTo (m : Machine) (limits : Limits) (sink : Sink) (source : String) :
    Observed m (runTo ⟨m, true, limits⟩ sink source) (runTo ⟨m, false, limits⟩ sink source) := by
  rw [runTo, runTo]
  cases parseProgram limits.source source.toList unnamed with
  | error fault =>
      cases fault with
      | rejected r => exact ⟨rfl, .refl m, (Machine.Agrees.refl m).parallel⟩
      | _ => rfl
  | ok program =>
      have hread := parallel_recordParsed m limits program unnamed
      obtain ⟨hresult, hparallel⟩ :=
        untraced_interpretTo (hread.agrees (.refl m)) limits sink program
      have hwhole := hread.trans hparallel
      exact ⟨hresult, hwhole.agrees (.refl m), hwhole⟩

/-- Whether a run is traced changes nothing but the trace, whatever is run from whatever state and
    wherever its values go: a source text in a session, an expression or a statement in a scope. -/
theorem tracing_observes (sink : Sink) (m : Machine) (limits : Limits) :
    (∀ source, Observed m (runTo ⟨m, true, limits⟩ sink source)
      (runTo ⟨m, false, limits⟩ sink source)) ∧
    (∀ scope node,
      let traced := m.perform ((Evaluator.withinTo sink true limits.run).expression scope node)
      let untraced := m.perform ((Evaluator.withinTo sink false limits.run).expression scope node)
      traced.1 = untraced.1 ∧ traced.2.Agrees untraced.2 ∧
        Machine.Parallel m m traced.2 untraced.2) ∧
    (∀ scope node,
      let traced := m.perform ((Evaluator.withinTo sink true limits.run).statement scope node)
      let untraced := m.perform ((Evaluator.withinTo sink false limits.run).statement scope node)
      traced.1 = untraced.1 ∧ traced.2.Agrees untraced.2 ∧
        Machine.Parallel m m traced.2 untraced.2) ∧
    ∀ traced, (∀ source, runTo ⟨m, traced, limits⟩ .willing source =
        run ⟨m, traced, limits⟩ source) ∧
      Evaluator.withinTo .willing traced limits.run = Evaluator.within traced limits.run := by
  have hwithin := Evaluator.untraced_withinTo sink limits.run
  refine ⟨observed_runTo m limits sink, fun scope node => ?_, fun scope node => ?_,
    fun traced => ⟨runTo_willing _, Evaluator.withinTo_willing traced limits.run⟩⟩
  · obtain ⟨hresult, hparallel⟩ := hwithin.expression scope node m m (.refl m)
    exact ⟨hresult, hparallel.agrees (.refl m), hparallel⟩
  · obtain ⟨hresult, hparallel⟩ := hwithin.statement scope node m m (.refl m)
    exact ⟨hresult, hparallel.agrees (.refl m), hparallel⟩

end Session

end Klartext
