import Klartext.Proofs.Depth.Grammar
import Klartext.Proofs.Evaluation.Pieces
import Klartext.Proofs.Evaluation.Traced

set_option autoImplicit false

/-! # Runs with more depth

A run that reaches the depth limit is stopped there, and what it has recorded by then is the
beginning of what the same run records with a higher limit. A run that does not reach the limit is
the same with every higher one. `Run.Deepens` says both of two steps; it is kept because the
evaluator never goes on after the limit was reached, and because nothing is ever taken off the
record. -/

namespace Klartext

namespace Run

variable {α β γ : Type}

/-- The second step does what the first one does, unless the first one is stopped at the depth
    limit. Then the second one may go on from there; it keeps what is recorded. -/
structure Deepens (p q : Run α) : Prop where
  reached : ∀ m : Machine, (∃ after, m.perform p = (.error .tooDeep, after) ∧
      after.events.toList <+: (m.perform q).2.events.toList) ∨ m.perform p = m.perform q
  records : ∀ m : Machine, m.events.toList <+: (m.perform q).2.events.toList

theorem deepens_of_records {p : Run α}
    (h : ∀ m : Machine, m.events.toList <+: (m.perform p).2.events.toList) : Deepens p p :=
  ⟨fun _ => .inr rfl, h⟩

theorem deepens_pure (a : α) : Deepens (pure a : Run α) (pure a) :=
  deepens_of_records fun _ => List.prefix_rfl

theorem deepens_throw (e : RuntimeError) : Deepens (throw e : Run α) (throw e) :=
  deepens_of_records fun _ => List.prefix_rfl

/-- A step that is stopped at once says nothing about the one that is not. -/
theorem Deepens.of_tooDeep {q : Run α} (h : Deepens q q) : Deepens (throw .tooDeep) q :=
  ⟨fun m => .inl ⟨m, rfl, h.records m⟩, h.records⟩

theorem deepens_record (event : Event) : Deepens (record event) (record event) :=
  deepens_of_records fun m => by simp

theorem deepens_trace (traced : Bool) (line : String) :
    Deepens (trace traced line) (trace traced line) := by
  cases traced
  · exact deepens_pure ()
  · exact deepens_record _

theorem deepens_updateScopes (f : Scopes → Scopes) :
    Deepens (updateScopes f) (updateScopes f) :=
  deepens_of_records fun _ => List.prefix_rfl

theorem deepens_ofExcept (r : Except RuntimeError α) : Deepens (ofExcept r) (ofExcept r) := by
  cases r
  · exact deepens_throw _
  · exact deepens_pure _

theorem Deepens.bind {p q : Run α} {f g : α → Run β} (h : Deepens p q)
    (hf : ∀ a, Deepens (f a) (g a)) : Deepens (p >>= f) (q >>= g) := by
  -- whatever the second step does next, it keeps what it has recorded
  have hrecords (m : Machine) :
      (m.perform q).2.events.toList <+: (m.perform (q >>= g)).2.events.toList := by
    rw [Machine.perform_bind]
    rcases m.perform q with ⟨e | a, after⟩
    · exact List.prefix_rfl
    · exact (hf a).records after
  refine ⟨fun m => ?_, fun m => (h.records m).trans (hrecords m)⟩
  rcases h.reached m with ⟨after, hp, hafter⟩ | hsame
  · exact .inl ⟨after, Machine.perform_bind_of_error f hp, hafter.trans (hrecords m)⟩
  · rw [Machine.perform_bind, Machine.perform_bind, hsame]
    rcases m.perform q with ⟨e | a, after⟩
    · exact .inr rfl
    · exact (hf a).reached after

theorem deepens_get_bind {f g : Machine → Run β} (hf : ∀ m, Deepens (f m) (g m)) :
    Deepens (get >>= f) (get >>= g) :=
  ⟨fun m => (hf m).reached m, fun m => (hf m).records m⟩

theorem Deepens.trans {p q r : Run α} (h : Deepens p q) (h' : Deepens q r) : Deepens p r := by
  refine ⟨fun m => ?_, h'.records⟩
  rcases h'.reached m with ⟨after, hq, hafter⟩ | hqr
  · rcases h.reached m with ⟨before, hp, hbefore⟩ | hpq
    · rw [hq] at hbefore
      exact .inl ⟨before, hp, hbefore.trans hafter⟩
    · exact .inl ⟨after, hpq.trans hq, hafter⟩
  · rw [← hqr]
    exact h.reached m

/-- A step that the limit does not stop is the same with a higher limit. -/
theorem Deepens.perform_eq {p q : Run α} (h : Deepens p q) {m : Machine}
    (hp : (m.perform p).1 ≠ .error .tooDeep) : m.perform q = m.perform p := by
  rcases h.reached m with ⟨after, hdeep, -⟩ | hsame
  · rw [hdeep] at hp
    exact absurd rfl hp
  · exact hsame.symm

end Run

namespace Evaluator

open Run

/-- The second evaluator deepens the first one. -/
structure Deepens (e e' : Evaluator) : Prop where
  expression : ∀ scope node, Run.Deepens (e.expression scope node) (e'.expression scope node)
  statement : ∀ scope node, Run.Deepens (e.statement scope node) (e'.statement scope node)

/-! ## What nothing is nested in -/

theorem deepens_builtin (action : Builtin) : Run.Deepens (builtin action) (builtin action) := by
  cases action with
  | readLine input =>
      refine deepens_get_bind fun m => ?_
      split
      · exact (deepens_of_records fun _ => List.prefix_rfl).bind fun _ => deepens_pure _
      · exact deepens_throw _
  | constant result => exact deepens_pure result

theorem deepens_bindParameters (scope : ScopeId) (names : List String) (values : List Node) :
    Run.Deepens (Evaluator.bind scope names values) (Evaluator.bind scope names values) := by
  induction names generalizing values with
  | nil => exact deepens_pure ()
  | cons name names ih =>
      cases values with
      | nil => exact deepens_pure ()
      | cons value values => exact (deepens_updateScopes _).bind fun _ => ih values

theorem deepens_print (values : List Node) : Run.Deepens (print values) (print values) := by
  induction values with
  | nil => exact deepens_pure ()
  | cons n rest ih =>
      exact (deepens_ofExcept _).bind fun _ => (deepens_record _).bind fun _ => ih

theorem deepens_hand (sink : Sink) (values : List Node) :
    Run.Deepens (hand sink values) (hand sink values) := by
  induction values with
  | nil => exact deepens_pure ()
  | cons n rest ih =>
      refine (deepens_ofExcept _).bind fun _ => (deepens_record _).bind fun _ => ?_
      refine deepens_get_bind fun m => ?_
      split
      · exact ih
      · exact deepens_throw _

/-! ## The rules -/

namespace Deepens

variable {e e' : Evaluator} (he : e.Deepens e')
include he

theorem expressions (scope : ScopeId) (nodes : List Node) :
    Run.Deepens (e.expressions scope nodes) (e'.expressions scope nodes) := by
  induction nodes with
  | nil => exact deepens_pure []
  | cons n rest ih =>
      exact (he.expression scope n).bind fun _ => ih.bind fun _ => deepens_pure _

theorem blockFrom (scope : ScopeId) (statements : List Node) (last : Completion) :
    Run.Deepens (e.blockFrom scope last statements) (e'.blockFrom scope last statements) := by
  induction statements generalizing last with
  | nil => exact deepens_pure last
  | cons s rest ih =>
      refine (he.statement scope s).bind fun completion => ?_
      split
      · exact deepens_pure _
      · exact ih completion

theorem block (scope : ScopeId) (statements : List Node) :
    Run.Deepens (e.block scope statements) (e'.block scope statements) :=
  he.blockFrom scope statements .nothing

theorem apply (function : Function) (values : List Node) :
    Run.Deepens (e.apply function values) (e'.apply function values) := by
  cases function with
  | builtin name parameters action => exact deepens_builtin action
  | defined name parameters body closure =>
      refine deepens_get_bind fun m => (deepens_updateScopes _).bind fun _ => ?_
      refine (deepens_bindParameters _ parameters values).bind fun _ => ?_
      refine (he.block _ body).bind fun completion => ?_
      split <;> exact deepens_pure _

theorem call (traced : Bool) (scope : ScopeId) (name : String) (arguments : List Node) :
    Run.Deepens (call traced e scope name arguments) (call traced e' scope name arguments) := by
  refine deepens_get_bind fun m => ?_
  split
  · exact deepens_throw _
  · -- whether the number of arguments is right does not depend on the levels
    rename_i function _
    have hcalled : Run.Deepens
        (do
          let values ← e.expressions scope arguments
          Run.trace traced s!"Calling {function.name} with {values.length} arguments"
          e.apply function values)
        (do
          let values ← e'.expressions scope arguments
          Run.trace traced s!"Calling {function.name} with {values.length} arguments"
          e'.apply function values) :=
      (he.expressions scope arguments).bind fun values =>
        (deepens_trace traced _).bind fun _ => he.apply function values
    split
    · exact (deepens_throw _).bind fun _ => hcalled
    · exact hcalled

theorem evaluate (traced : Bool) (scope : ScopeId) (node : Node) :
    Run.Deepens (evaluate traced e scope node) (evaluate traced e' scope node) := by
  refine (deepens_trace traced _).bind fun _ => ?_
  cases node with
  | literal v => exact deepens_pure _
  | operation operator left right =>
      refine (he.expression scope left).bind fun l => (he.expression scope right).bind fun r => ?_
      exact (deepens_ofExcept _).bind fun v => deepens_pure _
  | reference name =>
      refine deepens_get_bind fun m => ?_
      split
      · exact deepens_pure _
      · exact deepens_throw _
  | call name arguments => exact he.call traced scope name arguments
  | _ => exact deepens_throw _

theorem choose (scope : ScopeId) (otherwise : Option (List Node)) (branches : List (Branch Node)) :
    Run.Deepens (e.choose scope otherwise branches) (e'.choose scope otherwise branches) := by
  induction branches with
  | nil =>
      cases otherwise with
      | none => exact deepens_pure _
      | some body => exact he.block scope body
  | cons branch others ih =>
      refine (he.expression scope branch.condition).bind fun value => ?_
      split
      · exact he.block scope branch.body
      · exact ih

theorem execute (traced : Bool) (scope : ScopeId) (node : Node) :
    Run.Deepens (execute traced e scope node) (execute traced e' scope node) := by
  refine (deepens_trace traced _).bind fun _ => ?_
  cases node with
  | evaluation value => exact (he.expression scope value).bind fun _ => deepens_pure _
  | definition name value =>
      refine (he.expression scope value).bind fun v => ?_
      exact (deepens_updateScopes _).bind fun _ => deepens_pure _
  | function name parameters body => exact (deepens_updateScopes _).bind fun _ => deepens_pure _
  | giveBack value => exact (he.expression scope value).bind fun _ => deepens_pure _
  | print values =>
      refine (he.expressions scope values).bind fun vs => ?_
      exact (deepens_print vs).bind fun _ => deepens_pure _
  | conditional first others otherwise => exact he.choose scope otherwise (first :: others)
  | _ => exact deepens_throw _

theorem executeTo (sink : Sink) (traced : Bool) (scope : ScopeId) (node : Node) :
    Run.Deepens (executeTo sink traced e scope node) (executeTo sink traced e' scope node) := by
  cases node with
  | print values =>
      refine (deepens_trace traced _).bind fun _ => (he.expressions scope values).bind fun vs => ?_
      exact (deepens_hand sink vs).bind fun _ => deepens_pure _
  | _ => exact he.execute traced scope _

theorem statements (scope : ScopeId) (last : Option Node) (program : List Node) :
    Run.Deepens (e.statements scope last program) (e'.statements scope last program) := by
  induction program generalizing last with
  | nil => exact deepens_pure last
  | cons s rest ih =>
      exact (he.statement scope s).bind fun completion => ih completion.node?

end Deepens

/-! ## Levels -/

theorem deepens_self (sink : Sink) (traced : Bool) (limit : Nat) :
    (withinTo sink traced limit).Deepens (withinTo sink traced limit) := by
  induction limit with
  | zero => exact ⟨fun _ _ => deepens_throw _, fun _ _ => deepens_throw _⟩
  | succ limit ih => exact ⟨ih.evaluate traced, ih.executeTo sink traced⟩

/-- A higher limit deepens a lower one, wherever the values go that are printed. -/
theorem deepens_withinTo (sink : Sink) (traced : Bool) {a b : Nat} (hab : a ≤ b) :
    (withinTo sink traced a).Deepens (withinTo sink traced b) := by
  induction a generalizing b with
  | zero =>
      have hself := deepens_self sink traced b
      exact ⟨fun scope node => (hself.expression scope node).of_tooDeep,
        fun scope node => (hself.statement scope node).of_tooDeep⟩
  | succ a ih =>
      cases b with
      | zero => exact absurd hab (Nat.not_succ_le_zero a)
      | succ b =>
          have hnested := ih (Nat.le_of_succ_le_succ hab)
          exact ⟨hnested.evaluate traced, hnested.executeTo sink traced⟩

theorem deepens_within (traced : Bool) {a b : Nat} (hab : a ≤ b) :
    (within traced a).Deepens (within traced b) := by
  have hwilling := deepens_withinTo .willing traced hab
  rwa [withinTo_willing, withinTo_willing] at hwilling

end Evaluator

/-! ## Programs -/

/-- What was recorded first is printed first. -/
theorem Machine.printed_prefix {m m' : Machine} (h : m.events.toList <+: m'.events.toList) :
    m.printed <+: m'.printed :=
  h.filterMap Event.value?

theorem Machine.interpretIn_deepens (traced : Bool) {a b : Nat} (hab : a ≤ b) (m : Machine)
    (scope : ScopeId) (program : List Node) :
    (∃ after, m.interpretIn scope traced a program = (.stopped .tooDeep, after) ∧
        after.events.toList <+: (m.interpretIn scope traced b program).2.events.toList) ∨
      m.interpretIn scope traced a program = m.interpretIn scope traced b program := by
  have hstatements := ((Evaluator.deepens_within traced hab).statements scope none program).reached m
  have hstate (limit : Nat) : (m.interpretIn scope traced limit program).2 =
      (m.perform ((Evaluator.within traced limit).statements scope none program)).2 := by
    rw [interpretIn]
    rcases m.perform _ with ⟨e | value, after⟩ <;> rfl
  rcases hstatements with ⟨after, hstopped, hafter⟩ | hsame
  · refine .inl ⟨after, by rw [interpretIn, hstopped], ?_⟩
    rwa [hstate]
  · exact .inr (by rw [interpretIn, interpretIn, hsame])

/-! ## Both limits -/

/-- More levels change nothing but what was stopped for want of them: a source text that is not
    refused for its depth of nesting is read alike, as statements or as a refusal, and a run that is
    not stopped at the depth limit ends alike, in the same state. What a run has printed by the time
    it is stopped is the beginning of what it prints with more levels. -/
theorem Limits.more_levels {a b : Nat} (hab : a ≤ b) :
    (∀ source filename,
      parseProgram a source filename ≠
        .error (.rejected ((Refusal.nesting source).locate source filename)) →
      parseProgram b source filename = parseProgram a source filename) ∧
    (∀ source filename,
      parseExpression a source filename ≠
        .error (.rejected ((Refusal.nesting source).locate source filename)) →
      parseExpression b source filename = parseExpression a source filename) ∧
    ∀ (m : Machine) (scope : ScopeId) (traced : Bool) (program : List Node),
      ((m.interpretIn scope traced a program).1 ≠ .stopped .tooDeep →
        m.interpretIn scope traced b program = m.interpretIn scope traced a program) ∧
      (m.interpretIn scope traced a program).2.printed <+:
        (m.interpretIn scope traced b program).2.printed := by
  refine ⟨fun source filename h => ?_, fun source filename h => ?_, fun m scope traced program => ?_⟩
  · exact ((parseProgram_deepens hab source filename).resolve_left h).symm
  · exact ((parseExpression_deepens hab source filename).resolve_left h).symm
  · rcases m.interpretIn_deepens traced hab scope program with ⟨after, hstopped, hafter⟩ | hsame
    · rw [hstopped]
      exact ⟨fun h => absurd rfl h, Machine.printed_prefix hafter⟩
    · rw [hsame]
      exact ⟨fun _ => rfl, List.prefix_rfl⟩

/-- One level is too few for a statement that prints a literal, and two are enough. -/
theorem Limits.more_levels_print :
    let nothing : Node := .literal .null
    let program : List Node := [.print [nothing], .evaluation nothing]
    parseProgram 5 "nix!".toList unnamed = parseProgram 2 "nix!".toList unnamed ∧
    (Machine.start []).interpretIn Machine.root false 5 program =
      (Machine.start []).interpretIn Machine.root false 2 program ∧
    ((Machine.start []).interpretIn Machine.root false 1 program).2.printed <+:
      ((Machine.start []).interpretIn Machine.root false 5 program).2.printed := by
  intro nothing program
  have hread : parseProgram 2 "nix!".toList unnamed = .ok [.evaluation nothing] := by rfl
  have hfive := Limits.more_levels (show 2 ≤ 5 by decide)
  refine ⟨hfive.1 _ _ (by rw [hread]; nofun),
    (hfive.2.2 (Machine.start []) Machine.root false program).1 (by intro h; cases h), ?_⟩
  exact ((Limits.more_levels (show 1 ≤ 5 by decide)).2.2 _ _ _ _).2

end Klartext
