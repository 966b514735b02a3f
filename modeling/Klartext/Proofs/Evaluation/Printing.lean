import Klartext.Proofs.Depth.Evaluation
import Klartext.Proofs.Evaluation.Watched

set_option autoImplicit false

/-! # Printing

A print statement evaluates all of its values before it prints the first one. The values of a run
are literals, and a literal can always be printed, so the statement prints all of its values or
none. Only the sink can cut it short, at a value that it is handed (`Sink.Takes`). What is printed
before the values comes from the functions that they call (`Machine.Called`).

The functions that a name can stand for in the scope of the statement are the same all the way
through it, whatever the calls do (`Machine.Sees`): so each call is known before the statement
begins. -/

namespace Klartext

/-! ## What is printed -/

namespace Machine

theorem agrees_trace (m : Machine) (traced : Bool) (line : String) :
    m.Agrees (m.perform (Run.trace traced line)).2 := by
  rw [perform_trace]
  cases traced
  · exact .refl m
  · exact ⟨rfl, rfl, by simp [printed, Event.value?]⟩

/-- The state in which values have been printed. -/
def printing (m : Machine) (values : List Value) : Machine :=
  { m with events := m.events ++ (values.map Event.printed).toArray }

@[simp] theorem printing_nil (m : Machine) : m.printing [] = m := by
  simp [printing]

theorem printing_cons (m : Machine) (v : Value) (values : List Value) :
    m.printing (v :: values) = (m.printing [v]).printing values := by
  simp [printing]

@[simp] theorem printed_printing (m : Machine) (values : List Value) :
    (m.printing values).printed = m.printed ++ values := by
  have hvalues : (values.map Event.printed).filterMap Event.value? = values := by
    simp [List.filterMap_map, Function.comp_def, Event.value?]
  simp [printed, printing, hvalues]

theorem perform_printed (m : Machine) (v : Value) :
    m.perform (Run.record (.printed v)) = (.ok (), m.printing [v]) := by
  simp [printing]

end Machine

/-- Behind what was printed before, the sink takes all of the values. -/
def Sink.Takes (sink : Sink) (printed values : List Value) : Prop :=
  ∀ given, given ≠ [] → given <+: values → sink (printed ++ given) = none

namespace Sink

variable {sink : Sink} {printed values : List Value} {v : Value}

theorem takes_nil : sink.Takes printed [] :=
  fun _ hne hgiven => absurd (List.prefix_nil.1 hgiven) hne

theorem takes_cons (hv : sink (printed ++ [v]) = none)
    (hvalues : sink.Takes (printed ++ [v]) values) : sink.Takes printed (v :: values) := by
  intro given hne hgiven
  obtain hnil | ⟨more, rfl, hmore⟩ := List.prefix_cons_iff.1 hgiven
  · exact absurd hnil hne
  · cases more with
    | nil => exact hv
    | cons w more =>
        rw [List.append_cons]
        exact hvalues (w :: more) (List.cons_ne_nil w more) hmore

end Sink

namespace Evaluator

variable {sink : Sink} {m : Machine} {v : Value}

theorem perform_hand_taken (h : sink (m.printed ++ [v]) = none) (nodes : List Node) :
    m.perform (hand sink (.literal v :: nodes)) = (m.printing [v]).perform (hand sink nodes) := by
  rw [hand, Node.value?, Machine.perform_bind_of_ok _ (m.perform_ofExcept _),
    Machine.perform_bind_of_ok _ (m.perform_printed v), Machine.perform_get_bind,
    m.printed_printing [v], h]

theorem perform_hand_refused {error : RuntimeError} (h : sink (m.printed ++ [v]) = some error)
    (nodes : List Node) :
    m.perform (hand sink (.literal v :: nodes)) = (.error error, m.printing [v]) := by
  rw [hand, Node.value?, Machine.perform_bind_of_ok _ (m.perform_ofExcept _),
    Machine.perform_bind_of_ok _ (m.perform_printed v), Machine.perform_get_bind,
    m.printed_printing [v], h, Machine.perform_throw]

/-- A literal can be printed: handing literals to a sink ends behind the last one, or where the sink
    stops the run. -/
theorem perform_hand (sink : Sink) (m : Machine) (values : List Value) :
    (sink.Takes m.printed values ∧
        m.perform (hand sink (values.map Node.literal)) = (.ok (), m.printing values)) ∨
      ∃ taken v left error, values = taken ++ v :: left ∧ sink.Takes m.printed taken ∧
        sink (m.printed ++ (taken ++ [v])) = some error ∧
        m.perform (hand sink (values.map Node.literal)) =
          (.error error, m.printing (taken ++ [v])) := by
  induction values generalizing m with
  | nil => exact .inl ⟨Sink.takes_nil, by rw [Machine.printing_nil]; rfl⟩
  | cons v rest ih =>
      rw [List.map_cons]
      cases hv : sink (m.printed ++ [v]) with
      | some error =>
          exact .inr ⟨[], v, rest, error, rfl, Sink.takes_nil, hv, perform_hand_refused hv _⟩
      | none =>
          rw [perform_hand_taken hv]
          rcases ih (m.printing [v]) with
            ⟨htakes, hall⟩ | ⟨taken, w, left, error, rfl, htaken, hstop, hended⟩
          · rw [Machine.printed_printing] at htakes
            exact .inl ⟨Sink.takes_cons hv htakes, by rw [hall, m.printing_cons v rest]⟩
          · rw [Machine.printed_printing] at htaken hstop
            refine .inr ⟨v :: taken, w, left, error, rfl, Sink.takes_cons hv htaken, ?_, ?_⟩
            · rwa [List.cons_append, List.append_cons]
            · rw [hended, List.cons_append, m.printing_cons v (taken ++ [w])]

end Evaluator

/-! ## Calls -/

/-- On the way from one state to another, functions that a node calls were applied to values, each
    of them found under its name, and they printed what is listed. Between these calls nothing
    happened but that lines were traced. -/
inductive Machine.Called (sink : Sink) (traced : Bool) (find : String → Option Function)
    (node : Node) : Machine → List Value → Machine → Prop where
  | nothing {m after : Machine} (h : m.Agrees after) :
      Called sink traced find node m [] after
  | call {m : Machine} {out : List Value} {limit : Nat} {name : String}
      {arguments values : List Node} {function : Function}
      (hnode : Node.Within (.call name arguments) node) (hfind : find name = some function)
      (hvalues : ∀ v ∈ values, v.IsValue)
      (hprinted : (m.perform
        ((Evaluator.withinTo sink traced limit).apply function values)).2.printed =
        m.printed ++ out) :
      Called sink traced find node m out
        (m.perform ((Evaluator.withinTo sink traced limit).apply function values)).2
  | trans {m between after : Machine} {out more : List Value} :
      Called sink traced find node m out between → Called sink traced find node between more after →
      Called sink traced find node m (out ++ more) after

namespace Machine

variable {sink : Sink} {traced : Bool} {find : String → Option Function} {node child : Node}
  {m after : Machine} {out : List Value}

theorem Called.printed (h : m.Called sink traced find node out after) :
    after.printed = m.printed ++ out := by
  induction h with
  | nothing h => rw [h.printed, List.append_nil]
  | call _ _ _ hprinted => exact hprinted
  | trans _ _ ih ih' => rw [ih', ih, List.append_assoc]

/-- A node calls what the nodes below it call. -/
theorem Called.above (h : m.Called sink traced find child out after)
    (hchild : child ∈ node.children) : m.Called sink traced find node out after := by
  induction h with
  | nothing h => exact .nothing h
  | call hnode hfind hvalues hprinted =>
      exact .call (.under hchild hnode) hfind hvalues hprinted
  | trans _ _ ih ih' => exact ih.trans ih'

/-- There is a scope in which names stand for the functions that `find` gives. -/
structure Sees (scope : ScopeId) (find : String → Option Function) (m : Machine) : Prop where
  sound : m.scopes.Sound
  scope_lt : scope < m.scopes.size
  functions : m.scopes.findFunction? scope = find

end Machine

/-- Where no scope has changed, a search finds what it found before. -/
theorem Machine.Frame.searchUp_eq {m after : Machine} (h : m.Frame none after)
    (hm : m.scopes.WellFormed) {α : Type} (look : Scope → Option α) (bound : Nat) {id : ScopeId}
    (hid : id < m.scopes.size) :
    after.scopes.searchUp look bound id = m.scopes.searchUp look bound id := by
  induction bound generalizing id with
  | zero => rfl
  | succ bound ih =>
      have hs : m.scopes[id]? = some m.scopes[id] := Array.getElem?_eq_getElem hid
      have hs' : after.scopes[id]? = some m.scopes[id] := (h.scope_eq id hid nofun).trans hs
      simp only [Scopes.searchUp, hs, hs']
      split
      · rfl
      · split
        · rename_i parent hparent
          exact ih (Nat.lt_trans (hm.parent_lt hs hparent) hid)
        · rfl

theorem Machine.Sees.of_frame {scope : ScopeId} {find : String → Option Function}
    {m after : Machine} (h : m.Sees scope find) (hframe : m.Frame none after)
    (hsound : after.scopes.Sound) : after.Sees scope find := by
  refine ⟨hsound, Nat.lt_of_lt_of_le h.scope_lt hframe.size_le, ?_⟩
  rw [← h.functions]
  funext name
  exact hframe.searchUp_eq h.sound.wellFormed _ _ h.scope_lt

theorem Machine.Sees.of_agrees {scope : ScopeId} {find : String → Option Function}
    {m after : Machine} (h : m.Sees scope find) (hagrees : m.Agrees after) :
    after.Sees scope find := by
  obtain ⟨hsound, hlt, hfunctions⟩ := h
  rw [hagrees.scopes] at hsound hlt hfunctions
  exact ⟨hsound, hlt, hfunctions⟩

/-! ## Steps -/

namespace Run

variable {α β : Type} {sink : Sink} {traced : Bool} {scope : ScopeId}
  {find : String → Option Function} {node child : Node} {Q : α → Prop} {R : β → Prop}

/-- The step leaves the functions that are seen from a scope as they are, all that it prints comes
    from those that a node calls, and its result, if it has one, is as `Q` says. -/
def Calls (sink : Sink) (traced : Bool) (scope : ScopeId) (find : String → Option Function)
    (node : Node) (Q : α → Prop) (step : Run α) : Prop :=
  ∀ m : Machine, m.Sees scope find →
    (m.perform step).2.Sees scope find ∧
      (∃ out, m.Called sink traced find node out (m.perform step).2) ∧
      Ends (fun _ _ => True) Q (m.perform step)

theorem calls_pure {a : α} (h : Q a) : Calls sink traced scope find node Q (pure a) :=
  fun m hm => ⟨hm, ⟨[], .nothing (.refl m)⟩, h⟩

theorem calls_throw (e : RuntimeError) : Calls sink traced scope find node Q (throw e) :=
  fun m hm => ⟨hm, ⟨[], .nothing (.refl m)⟩, trivial⟩

theorem calls_bind {p : Run α} {f : α → Run β} (hp : Calls sink traced scope find node Q p)
    (hf : ∀ a, Q a → Calls sink traced scope find node R (f a)) :
    Calls sink traced scope find node R (p >>= f) := by
  intro m hm
  obtain ⟨hbetween, ⟨out, hout⟩, hends⟩ := hp m hm
  rw [Machine.perform_bind]
  rcases hstep : m.perform p with ⟨e | a, between⟩ <;> rw [hstep] at hbetween hout hends
  · exact ⟨hbetween, ⟨out, hout⟩, trivial⟩
  · obtain ⟨hafter, ⟨more, hmore⟩, hends'⟩ := hf a hends between hbetween
    exact ⟨hafter, ⟨out ++ more, hout.trans hmore⟩, hends'⟩

theorem calls_get_bind {f : Machine → Run β}
    (hf : ∀ m : Machine, m.Sees scope find → Calls sink traced scope find node R (f m)) :
    Calls sink traced scope find node R (get >>= f) :=
  fun m hm => hf m hm m hm

theorem Calls.above {p : Run α} (h : Calls sink traced scope find child Q p)
    (hchild : child ∈ node.children) : Calls sink traced scope find node Q p := by
  intro m hm
  obtain ⟨hafter, ⟨out, hout⟩, hends⟩ := h m hm
  exact ⟨hafter, ⟨out, hout.above hchild⟩, hends⟩

theorem calls_trace (traced' : Bool) (line : String) :
    Calls sink traced scope find node (fun _ => True) (trace traced' line) := by
  intro m hm
  have hagrees := m.agrees_trace traced' line
  refine ⟨hm.of_agrees hagrees, ⟨[], .nothing hagrees⟩, ?_⟩
  rw [Machine.perform_trace]
  trivial

theorem calls_ofExcept (r : Except RuntimeError α) :
    Calls sink traced scope find node (fun _ => True) (ofExcept r) := by
  cases r with
  | error e => exact calls_throw e
  | ok a => exact calls_pure trivial

end Run

/-! ## The rules -/

namespace Evaluator

open Run

/-! ### Wherever the values go

What holds of the scopes does not depend on the sink: it is only asked whether to stop. -/

theorem frames_hand (sink : Sink) (values : List Node) : Run.Frames none (hand sink values) := by
  induction values with
  | nil => exact frames_pure none ()
  | cons n rest ih =>
      refine frames_bind (frames_ofExcept none _) fun value => ?_
      refine frames_bind (frames_record none _) fun _ => frames_get_bind fun m => ?_
      split
      · exact ih
      · exact frames_throw none _

theorem frames_withinTo (sink : Sink) (traced : Bool) (limit : Nat) :
    (withinTo sink traced limit).Frames := by
  induction limit with
  | zero => exact ⟨fun _ _ => frames_throw none _, fun _ _ => frames_throw _ _⟩
  | succ limit ih =>
      refine ⟨ih.evaluate traced, fun scope node => ?_⟩
      cases node with
      | print values =>
          refine frames_bind (frames_trace _ traced _) fun _ => ?_
          refine frames_bind ((ih.expressions scope values).widen _) fun results => ?_
          exact frames_bind ((frames_hand sink results).widen _) fun _ => frames_pure _ _
      | _ => exact ih.execute traced scope _

theorem keeps_hand (sink : Sink) {bound : Nat} (values : List Node) :
    Run.Keeps (fun _ _ => True) bound (fun _ => True) (hand sink values) := by
  induction values generalizing bound with
  | nil => exact keeps_pure trivial
  | cons n rest ih =>
      refine keeps_bind (keeps_ofExcept (fun _ _ => trivial) fun _ _ _ => trivial) fun value _ => ?_
      refine keeps_bind (keeps_record _) fun _ _ => keeps_get_bind fun m _ _ => ?_
      split
      · exact ih
      · exact keeps_throw fun _ => trivial

theorem keeps_withinTo (sink : Sink) (traced : Bool) (limit : Nat) :
    (withinTo sink traced limit).Keeps fun _ _ => True := by
  induction limit with
  | zero => exact ⟨fun _ => keeps_throw fun _ => trivial, fun _ => keeps_throw fun _ => trivial⟩
  | succ limit ih =>
      refine ⟨keeps_evaluate ih (fun _ _ _ => trivial) traced, fun hnode => ?_⟩
      cases hnode with
      | print hvalues =>
          refine keeps_bind (keeps_trace traced _) fun _ _ => ?_
          refine keeps_bind (keeps_expressions ih hvalues) fun results _ => ?_
          exact keeps_bind (keeps_hand sink results) fun _ _ =>
            keeps_pure fun _ hn => absurd hn (Option.not_mem_none _)
      | evaluation h => exact keeps_execute ih traced (.evaluation h)
      | definition hname h => exact keeps_execute ih traced (.definition hname h)
      | function hname hparameters hbody =>
          exact keeps_execute ih traced (.function hname hparameters hbody)
      | giveBack h => exact keeps_execute ih traced (.giveBack h)
      | conditional hconditions hbodies hotherwise =>
          exact keeps_execute ih traced (.conditional hconditions hbodies hotherwise)

section Rules

variable {sink : Sink} {traced : Bool} {limit : Nat} {scope : ScopeId}
  {find : String → Option Function}
  {node : Node}

/-- A function that the node calls prints what its call prints. -/
theorem calls_apply {name : String} {arguments values : List Node} {function : Function}
    (hnode : Node.Within (.call name arguments) node) (hfind : find name = some function)
    (hvalues : ∀ v ∈ values, v.IsValue) :
    Calls sink traced scope find node Node.IsValue
      ((withinTo sink traced limit).apply function values) := by
  intro m hm
  rw [← hm.functions] at hfind
  obtain ⟨own, hown, hfunction⟩ := hm.sound.isSound_of_findFunction? hfind
  obtain ⟨hsound, -, hends⟩ := keeps_apply (keeps_withinTo sink traced limit)
    (fun _ _ _ => trivial) hfunction hvalues m hm.sound hown
  have hframe := (frames_withinTo sink traced limit).apply function values m
  -- nothing is taken off the record, so what the call printed is what stands behind the rest
  have hrecords := ((deepens_self sink traced limit).apply function values).records m
  obtain ⟨out, hout⟩ := Machine.printed_prefix hrecords
  have hcalled := Machine.Called.call hnode (hm.functions ▸ hfind) hvalues hout.symm
  refine ⟨hm.of_frame hframe hsound, ⟨out, hcalled⟩, ?_⟩
  rcases hstep : m.perform ((withinTo sink traced limit).apply function values) with ⟨e | v, after⟩
  · trivial
  · rw [hstep] at hends
    exact hends

variable (hnested : ∀ node, Calls sink traced scope find node Node.IsValue
  ((withinTo sink traced limit).expression scope node))

include hnested

theorem calls_expressions {nodes : List Node} (hnodes : ∀ n ∈ nodes, n ∈ node.children) :
    Calls sink traced scope find node (fun values => ∀ v ∈ values, v.IsValue)
      ((withinTo sink traced limit).expressions scope nodes) := by
  induction nodes with
  | nil => exact calls_pure (List.forall_mem_nil _)
  | cons n rest ih =>
      obtain ⟨hn, hrest⟩ := List.forall_mem_cons.1 hnodes
      refine calls_bind ((hnested n).above hn) fun value hvalue => ?_
      refine calls_bind (ih hrest) fun values hvalues => calls_pure ?_
      exact List.forall_mem_cons.2 ⟨hvalue, hvalues⟩

theorem calls_call (name : String) (arguments : List Node) :
    Calls sink traced scope find (.call name arguments) Node.IsValue
      ((withinTo sink traced limit).call traced scope name arguments) := by
  refine calls_get_bind fun m hm => ?_
  split
  · exact calls_throw _
  · rename_i function hfound
    rw [hm.functions] at hfound
    simp only
    split
    · exact calls_throw _
    · refine calls_bind (calls_expressions hnested fun _ h => h) fun values hvalues => ?_
      refine calls_bind (calls_trace traced _) fun _ _ => ?_
      exact calls_apply (.self _) hfound hvalues

theorem calls_evaluate (node : Node) :
    Calls sink traced scope find node Node.IsValue
      (evaluate traced (withinTo sink traced limit) scope node) := by
  refine calls_bind (calls_trace traced _) fun _ _ => ?_
  cases node with
  | literal v => exact calls_pure ⟨v, rfl⟩
  | operation op left right =>
      refine calls_bind ((hnested left).above List.mem_cons_self) fun l _ => ?_
      have hright : right ∈ (Node.operation op left right).children :=
        List.mem_cons_of_mem _ List.mem_cons_self
      refine calls_bind ((hnested right).above hright) fun r _ => ?_
      exact calls_bind (calls_ofExcept _) fun v _ => calls_pure ⟨v, rfl⟩
  | reference name =>
      refine calls_get_bind fun m hm => ?_
      split
      · rename_i value hfound
        exact calls_pure (hm.sound.isValue_of_findVariable? hfound)
      · exact calls_throw _
  | call name arguments => exact calls_call hnested name arguments
  | _ => exact calls_throw _

end Rules

/-- Evaluating an expression gives a literal, and prints only what the functions print that the
    expression calls. -/
theorem calls_withinTo (sink : Sink) (traced : Bool) (limit : Nat) (scope : ScopeId)
    (find : String → Option Function) (node : Node) :
    Calls sink traced scope find node Node.IsValue
      ((withinTo sink traced limit).expression scope node) := by
  induction limit generalizing node with
  | zero => exact calls_throw _
  | succ limit ih => exact calls_evaluate ih node

/-! ## Values in their turn -/

/-- Expressions are evaluated one after the other, each in the state in which the one before it
    ended, until one of them fails. What the functions print that an expression calls is listed for
    each that is evaluated, the failing one included. -/
inductive InTurn (sink : Sink) (traced : Bool) (limit : Nat) (scope : ScopeId)
    (find : String → Option Function) :
    Machine → List Node → List (List Value) → Except RuntimeError (List Value) → Machine →
      Prop where
  | nil (m : Machine) : InTurn sink traced limit scope find m [] [] (.ok []) m
  | failed {m after : Machine} {node : Node} {rest : List Node} {out : List Value}
      {error : RuntimeError}
      (hvalue : m.perform ((withinTo sink traced limit).expression scope node) =
        (.error error, after))
      (hcalled : m.Called sink traced find node out after) :
      InTurn sink traced limit scope find m (node :: rest) [out] (.error error) after
  | cons {m between after : Machine} {node : Node} {rest : List Node} {v : Value}
      {out : List Value} {outs : List (List Value)} {outcome : Except RuntimeError (List Value)}
      (hvalue : m.perform ((withinTo sink traced limit).expression scope node) =
        (.ok (.literal v), between))
      (hcalled : m.Called sink traced find node out between)
      (hrest : InTurn sink traced limit scope find between rest outs outcome after) :
      InTurn sink traced limit scope find m (node :: rest) (out :: outs) (outcome.map (v :: ·))
        after

/-- How a print statement ends that is executed in the state `m`: it may not come to its values, for
    want of depth; or one of them fails, and the statement with it; or all of them are printed, as
    far as the sink takes them. -/
inductive PrintEnds (sink : Sink) (traced : Bool) (scope : ScopeId)
    (find : String → Option Function) (values : List Node) (m : Machine) :
    (limit : Nat) → Except RuntimeError Completion × Machine → Prop where
  | unbegun : PrintEnds sink traced scope find values m 0 (.error .tooDeep, m)
  | nothing {limit : Nat} {outs : List (List Value)} {error : RuntimeError} {after : Machine}
      (hvalues : InTurn sink traced limit scope find
        (m.perform (Run.trace traced "Executing: Print")).2 values outs (.error error) after)
      (hprinted : after.printed = m.printed ++ outs.flatten) :
      PrintEnds sink traced scope find values m (limit + 1) (.error error, after)
  | all {limit : Nat} {outs : List (List Value)} {results : List Value} {between : Machine}
      (hvalues : InTurn sink traced limit scope find
        (m.perform (Run.trace traced "Executing: Print")).2 values outs (.ok results) between)
      (hlength : results.length = values.length)
      (htakes : sink.Takes (m.printed ++ outs.flatten) results)
      (hprinted : (between.printing results).printed = m.printed ++ (outs.flatten ++ results)) :
      PrintEnds sink traced scope find values m (limit + 1) (.ok .nothing, between.printing results)
  | refused {limit : Nat} {outs : List (List Value)} {taken left : List Value} {v : Value}
      {error : RuntimeError} {between : Machine}
      (hvalues : InTurn sink traced limit scope find
        (m.perform (Run.trace traced "Executing: Print")).2 values outs (.ok (taken ++ v :: left))
        between)
      (hlength : (taken ++ v :: left).length = values.length)
      (htakes : sink.Takes (m.printed ++ outs.flatten) taken)
      (hrefused : sink (m.printed ++ (outs.flatten ++ (taken ++ [v]))) = some error)
      (hprinted : (between.printing (taken ++ [v])).printed =
        m.printed ++ (outs.flatten ++ (taken ++ [v]))) :
      PrintEnds sink traced scope find values m (limit + 1)
        (.error error, between.printing (taken ++ [v]))

section InTurn

variable {sink : Sink} {traced : Bool} {limit : Nat} {scope : ScopeId}
  {find : String → Option Function}
  {m after : Machine} {nodes : List Node} {outs : List (List Value)}
  {outcome : Except RuntimeError (List Value)}

theorem InTurn.printed (h : InTurn sink traced limit scope find m nodes outs outcome after) :
    after.printed = m.printed ++ outs.flatten := by
  induction h with
  | nil m => rw [List.flatten_nil, List.append_nil]
  | failed _ hcalled => rw [hcalled.printed, List.flatten_singleton]
  | cons _ hcalled _ ih => rw [ih, hcalled.printed, List.flatten_cons, List.append_assoc]

theorem InTurn.length_eq (h : InTurn sink traced limit scope find m nodes outs outcome after)
    {results : List Value} (hresults : outcome = .ok results) :
    results.length = nodes.length := by
  induction h generalizing results with
  | nil m =>
      cases hresults
      rfl
  | failed => cases hresults
  | @cons _ _ _ _ _ v _ _ outcome _ _ _ ih =>
      cases outcome with
      | error e => cases hresults
      | ok values =>
          cases hresults
          rw [List.length_cons, List.length_cons, ih rfl]

/-- Where a scope is sound, expressions are evaluated in their turn. -/
theorem expressions_inTurn (sink : Sink) (traced : Bool) (limit : Nat) (hm : m.Sees scope find)
    (nodes : List Node) :
    ∃ outs outcome after, InTurn sink traced limit scope find m nodes outs outcome after ∧
      m.perform ((withinTo sink traced limit).expressions scope nodes) =
        (outcome.map (List.map Node.literal), after) := by
  induction nodes generalizing m with
  | nil => exact ⟨[], .ok [], m, .nil m, rfl⟩
  | cons node rest ih =>
      obtain ⟨hbetween, ⟨out, hout⟩, hends⟩ :=
        calls_withinTo sink traced limit scope find node m hm
      rw [expressions]
      rcases hstep : m.perform ((withinTo sink traced limit).expression scope node) with
        ⟨error | value, between⟩ <;> rw [hstep] at hbetween hout hends
      · exact ⟨[out], .error error, between, .failed hstep hout,
          Machine.perform_bind_of_error _ hstep⟩
      · -- a literal, so that printing it later cannot fail
        obtain ⟨v, rfl⟩ : value.IsValue := hends
        obtain ⟨outs, outcome, after, hinTurn, hperform⟩ := ih hbetween
        refine ⟨out :: outs, _, after, .cons hstep hout hinTurn, ?_⟩
        rw [Machine.perform_bind_of_ok _ hstep, Machine.perform_bind, hperform]
        cases outcome <;> rfl

end InTurn

/-! ## Print statements -/

/-- A print statement changes no scope, not even its own. -/
theorem frames_printStatement (sink : Sink) (traced : Bool) (limit : Nat) (scope : ScopeId)
    (values : List Node) :
    Run.Frames none ((withinTo sink traced limit).statement scope (.print values)) := by
  cases limit with
  | zero => exact frames_throw none _
  | succ limit =>
      refine frames_bind (frames_trace none traced _) fun _ => ?_
      have hnested := frames_withinTo sink traced limit
      refine frames_bind (hnested.expressions scope values) fun results => ?_
      exact frames_bind (frames_hand sink results) fun _ => frames_pure none _

/-- All values are evaluated before the first one is printed, and then only the sink can fail. -/
theorem printEnds {m : Machine} {scope : ScopeId} {find : String → Option Function}
    (hm : m.Sees scope find) (sink : Sink) (traced : Bool) (limit : Nat) (values : List Node) :
    PrintEnds sink traced scope find values m limit
      (m.perform ((withinTo sink traced limit).statement scope (.print values))) := by
  cases limit with
  | zero => exact .unbegun
  | succ limit =>
      have hagrees := m.agrees_trace traced "Executing: Print"
      obtain ⟨outs, outcome, after, hvalues, hperform⟩ :=
        expressions_inTurn sink traced limit (hm.of_agrees hagrees) values
      have hprinted : after.printed = m.printed ++ outs.flatten := by
        rw [hvalues.printed, hagrees.printed]
      have htrace : m.perform (Run.trace traced "Executing: Print") =
          (.ok (), (m.perform (Run.trace traced "Executing: Print")).2) := by
        rw [Machine.perform_trace]
      have hstep : m.perform ((withinTo sink traced (limit + 1)).statement scope (.print values)) =
          (m.perform (Run.trace traced "Executing: Print")).2.perform (do
            hand sink (← (withinTo sink traced limit).expressions scope values)
            return .nothing) :=
        Machine.perform_bind_of_ok _ htrace
      rw [hstep]
      cases outcome with
      | error error =>
          rw [Machine.perform_bind_of_error _ hperform]
          exact .nothing hvalues hprinted
      | ok results =>
          -- what was evaluated are literals, and those can always be handed to the sink
          rw [Machine.perform_bind_of_ok _ hperform]
          have hlength := hvalues.length_eq rfl
          have hbehind (given : List Value) :
              (after.printing given).printed = m.printed ++ (outs.flatten ++ given) := by
            rw [Machine.printed_printing, hprinted, List.append_assoc]
          rcases perform_hand sink after results with
            ⟨htakes, hall⟩ | ⟨taken, v, left, error, rfl, htakes, hrefused, hended⟩
          · rw [Machine.perform_bind_of_ok _ hall]
            exact .all hvalues hlength (hprinted ▸ htakes) (hbehind results)
          · rw [Machine.perform_bind_of_error _ hended]
            rw [hprinted, List.append_assoc] at hrefused
            exact .refused hvalues hlength (hprinted ▸ htakes) hrefused (hbehind _)

/-- In every state of a program that was read, a print statement prints all of its values or none of
    them, wherever they go. If a value fails, the statement fails with it, and all that was printed
    was printed by functions that the values call that were evaluated until then; otherwise what
    these functions print comes first, value by value, and behind it stand the values, up to one at
    which the sink fails, if there is one. No scope is changed. Where everything is recorded, the
    sink takes every value. -/
theorem print_all_or_nothing {depth : Nat} {text rest : Text} {program : List Node}
    (hread : Grammar.program depth text = .found program rest) (lines : List String)
    (traced : Bool) (limit : Nat) (stop : ScopeId → Node → Machine → Bool) :
    let reached := ((Machine.start lines).perform
      ((watched stop traced limit).statements Machine.root none program)).2
    (∀ scope < reached.scopes.size, ∀ (sink : Sink) (traced : Bool) (limit : Nat)
        (values : List Node),
      let ended := reached.perform ((withinTo sink traced limit).statement scope (.print values))
      PrintEnds sink traced scope (reached.scopes.findFunction? scope) values reached limit ended ∧
        reached.Frame none ended.2) ∧
    ∀ traced limit, withinTo .willing traced limit = within traced limit := by
  refine ⟨fun scope hscope sink traced' limit' values => ?_, withinTo_willing⟩
  have hprogram := Grammar.isStatement_of_program hread
  have horderly := (watched_orderly hprogram lines traced limit stop).1
  exact ⟨printEnds ⟨horderly.sound, hscope, rfl⟩ sink traced' limit' values,
    frames_printStatement sink traced' limit' scope values _⟩

/-- A function that prints a greeting. -/
def greeting : Surface.Statement :=
  .function ⟨["Gruß".toList], by decide, by decide⟩ []
    [.print (.literal (.string "hallo".toList)) []]

/-- The first value prints the greeting while it is evaluated. If the second one fails, the value of
    the first is not printed; if it does not, a sink that has room for two lines takes the greeting
    and the first value. -/
theorem print_all_or_nothing_greeting :
    let reached := ((Machine.start []).perform ((watched (fun _ _ _ => false) false 5).statements
      Machine.root none [greeting.node])).2
    let printed (sink : Sink) (second : Node) := reached.perform
      ((withinTo sink false 5).statement Machine.root (.print [.call "Gruß" [], second]))
    let full : Sink := fun printed => if printed.length ≤ 2 then none else some .inputExhausted
    let failed := printed .willing (.reference "x")
    let refused := printed full (.literal .null)
    Grammar.program Grammar.depthLimit (Surface.Statement.program [greeting]) =
        .found [greeting.node] [] ∧
      Machine.root < reached.scopes.size ∧
      failed.1 = .error (.undefinedVariable "x") ∧ failed.2.printed = [.string "hallo"] ∧
      PrintEnds .willing false Machine.root (reached.scopes.findFunction? Machine.root)
        [.call "Gruß" [], .reference "x"] reached 5 failed ∧
      refused.1 = .error .inputExhausted ∧
      refused.2.printed = [.string "hallo", .null, .null] ∧
      PrintEnds full false Machine.root (reached.scopes.findFunction? Machine.root)
        [.call "Gruß" [], .literal .null] reached 5 refused ∧
      reached.Frame none refused.2 := by
  intro reached printed full failed refused
  have hread : Grammar.program Grammar.depthLimit (Surface.Statement.program [greeting]) =
      .found [greeting.node] [] :=
    Surface.Statement.program_singleton (by decide) greeting (by decide)
  have hscope : Machine.root < reached.scopes.size := Nat.le_refl 1
  have hprints := (print_all_or_nothing hread [] false 5 fun _ _ _ => false).1 Machine.root hscope
  exact ⟨hread, hscope, rfl, rfl, (hprints .willing false 5 _).1, rfl, rfl,
    hprints full false 5 [.call "Gruß" [], .literal .null]⟩

end Evaluator

end Klartext
