import Klartext.Proofs.Evaluation.Perform

set_option autoImplicit false

/-! # Running in pieces

A program may be cut in two anywhere: running it is running the first part and then, unless an error
stopped that, the second part where the first one ended. So a session that is given its statements
in portions ends as if it had been given all of them at once.

The statements of a block may be cut in two as well, with one difference. A return ends a block, to
whatever depth of conditionals it stands in it (`Evaluator.Returns`), and what would follow is not
run. -/

namespace Klartext

/-! ## Programs -/

namespace Evaluator

/-- The second part of a program is run where the first one ended. -/
theorem perform_statements_append (e : Evaluator) (scope : ScopeId) (p q : List Node)
    (last : Option Node) (m : Machine) :
    m.perform (e.statements scope last (p ++ q)) =
      match m.perform (e.statements scope last p) with
      | (.ok value, after) => after.perform (e.statements scope value q)
      | (.error error, after) => (.error error, after) := by
  induction p generalizing last m with
  | nil => rfl
  | cons s rest ih =>
      rw [List.cons_append, statements, statements, Machine.perform_bind, Machine.perform_bind]
      rcases m.perform (e.statement scope s) with ⟨_ | completion, after⟩
      · rfl
      · exact ih completion.node? after

/-- The value of a program with statements is that of its last one. -/
theorem statements_of_ne_nil (e : Evaluator) (scope : ScopeId) {q : List Node} (hq : q ≠ [])
    (last : Option Node) : e.statements scope last q = e.statements scope none q := by
  cases q with
  | nil => exact absurd rfl hq
  | cons s rest => rfl

end Evaluator

namespace Machine

/-- Runs the statements of a program in a scope. -/
def interpretIn (m : Machine) (scope : ScopeId) (traced : Bool) (limit : Nat)
    (program : List Node) : Outcome × Machine :=
  match m.perform ((Evaluator.within traced limit).statements scope none program) with
  | (.ok value, after) => (.finished value, after)
  | (.error e, after) => (.stopped e, after)

section Parts

variable {m after : Machine} {scope : ScopeId} {traced : Bool} {limit : Nat} {p : List Node}

theorem interpretIn_append_of_stopped {e : RuntimeError}
    (h : m.interpretIn scope traced limit p = (.stopped e, after)) (q : List Node) :
    m.interpretIn scope traced limit (p ++ q) = (.stopped e, after) := by
  rw [interpretIn] at h ⊢
  rw [Evaluator.perform_statements_append]
  rcases hp : m.perform ((Evaluator.within traced limit).statements scope none p) with ⟨_ | _, _⟩
  · rw [hp] at h
    exact h
  · rw [hp] at h
    cases h

theorem interpretIn_append_of_finished {value : Option Node}
    (h : m.interpretIn scope traced limit p = (.finished value, after)) (q : List Node) :
    m.interpretIn scope traced limit (p ++ q) =
      if q.isEmpty then (.finished value, after)
      else after.interpretIn scope traced limit q := by
  rw [interpretIn] at h ⊢
  rw [Evaluator.perform_statements_append]
  rcases hp : m.perform ((Evaluator.within traced limit).statements scope none p) with ⟨_ | v, between⟩
  · rw [hp] at h
    cases h
  · rw [hp] at h
    cases h
    cases q with
    | nil => rfl
    | cons s rest =>
        rw [interpretIn, Evaluator.statements_of_ne_nil _ _ (List.cons_ne_nil s rest)]
        rfl

end Parts

end Machine

/-! ## Sessions -/

namespace Session

/-- A session that was given several programs one after the other, if none of them was stopped. -/
def interpretAll? (s : Session) : List (List Node) → Option Session
  | [] => some s
  | p :: others =>
    match s.interpret p with
    | (.finished _, after) => after.interpretAll? others
    | _ => none

theorem interpret_eq (s : Session) (program : List Node) :
    s.interpret program =
      ((s.machine.interpretIn Machine.root s.traced s.limits.run program).1,
        { s with machine := (s.machine.interpretIn Machine.root s.traced s.limits.run program).2 }) :=
  rfl

/-- A program comes to its end, or an error stops it. -/
theorem interpret_cases (s : Session) (program : List Node) :
    (∃ value after, s.interpret program = (.finished value, after)) ∨
      ∃ e after, s.interpret program = (.stopped e, after) := by
  rw [interpret_eq, Machine.interpretIn]
  rcases s.machine.perform _ with ⟨e | value, after⟩
  · exact .inr ⟨e, _, rfl⟩
  · exact .inl ⟨value, _, rfl⟩

theorem interpret_append_of_stopped {s after : Session} {p : List Node} {e : RuntimeError}
    (h : s.interpret p = (.stopped e, after)) (q : List Node) :
    s.interpret (p ++ q) = (.stopped e, after) := by
  rw [interpret_eq] at h ⊢
  rcases hp : s.machine.interpretIn Machine.root s.traced s.limits.run p with ⟨outcome, m⟩
  rw [hp] at h
  cases h
  rw [Machine.interpretIn_append_of_stopped hp]

theorem interpret_append_of_finished {s after : Session} {p : List Node} {value : Option Node}
    (h : s.interpret p = (.finished value, after)) (q : List Node) :
    s.interpret (p ++ q) = if q.isEmpty then (.finished value, after) else after.interpret q := by
  rw [interpret_eq] at h ⊢
  rcases hp : s.machine.interpretIn Machine.root s.traced s.limits.run p with ⟨outcome, m⟩
  rw [hp] at h
  cases h
  rw [Machine.interpretIn_append_of_finished hp]
  cases q <;> rfl

/-- Programs that are not stopped lead where all their statements in one program lead. -/
theorem interpretAll?_eq_some {s after : Session} {programs : List (List Node)} :
    s.interpretAll? programs = some after ↔
      ∃ value, s.interpret programs.flatten = (.finished value, after) := by
  induction programs generalizing s with
  | nil =>
      refine ⟨fun h => ?_, fun ⟨value, h⟩ => ?_⟩
      · cases h
        exact ⟨none, rfl⟩
      · cases h
        rfl
  | cons p others ih =>
      rw [List.flatten_cons, interpretAll?]
      rcases s.interpret_cases p with ⟨value, between, hp⟩ | ⟨e, between, hp⟩
      · rw [hp, interpret_append_of_finished hp]
        simp only
        rw [ih]
        cases hothers : others.flatten with
        | nil =>
            -- nothing is left to be run, so that the value of the first program stays
            refine ⟨fun ⟨_, h⟩ => ?_, fun ⟨_, h⟩ => ?_⟩
            · cases h
              exact ⟨value, rfl⟩
            · cases h
              exact ⟨none, rfl⟩
        | cons s rest => rfl
      · rw [hp, interpret_append_of_stopped hp]
        simp

end Session

/-! ## Blocks -/

/-- The statement returned. -/
def Completion.isReturn : Completion → Bool
  | .returned _ => true
  | _ => false

namespace Evaluator

section Blocks

variable {e : Evaluator} {scope : ScopeId}

/-- The statements behind one that did not return are run. -/
theorem perform_blockFrom_cons {m after : Machine} {s : Node} {completion : Completion}
    (h : m.perform (e.statement scope s) = (.ok completion, after))
    (hreturn : completion.isReturn = false) (last : Completion) (rest : List Node) :
    m.perform (e.blockFrom scope last (s :: rest)) =
      after.perform (e.blockFrom scope completion rest) := by
  rw [blockFrom, Machine.perform_bind_of_ok _ h]
  cases completion with
  | returned n => cases hreturn
  | nothing | value => rfl

/-- The second part of a block is run where the first one ended, unless that returned. -/
theorem perform_blockFrom_append {last : Completion} (hlast : last.isReturn = false)
    (p q : List Node) (m : Machine) :
    m.perform (e.blockFrom scope last (p ++ q)) =
      match m.perform (e.blockFrom scope last p) with
      | (.ok completion, after) =>
        if completion.isReturn then (.ok completion, after)
        else after.perform (e.blockFrom scope completion q)
      | (.error error, after) => (.error error, after) := by
  induction p generalizing last m with
  | nil => simp [blockFrom, hlast]
  | cons s rest ih =>
      rw [List.cons_append]
      rcases hs : m.perform (e.statement scope s) with ⟨error | completion, after⟩
      · rw [blockFrom, blockFrom, Machine.perform_bind_of_error _ hs,
          Machine.perform_bind_of_error _ hs]
      · cases hreturn : completion.isReturn with
        | false =>
            rw [perform_blockFrom_cons hs hreturn, perform_blockFrom_cons hs hreturn]
            exact ih hreturn after
        | true =>
            rw [blockFrom, blockFrom, Machine.perform_bind_of_ok _ hs,
              Machine.perform_bind_of_ok _ hs]
            cases completion with
            | returned n => rfl
            | nothing | value => cases hreturn

theorem perform_block_append (p q : List Node) (m : Machine) :
    m.perform (e.block scope (p ++ q)) =
      match m.perform (e.block scope p) with
      | (.ok completion, after) =>
        if completion.isReturn || q.isEmpty then (.ok completion, after)
        else after.perform (e.block scope q)
      | (.error error, after) => (.error error, after) := by
  rw [block, block, perform_blockFrom_append rfl]
  rcases m.perform (e.blockFrom scope .nothing p) with ⟨error | completion, after⟩
  · rfl
  · cases q with
    | nil => cases completion <;> rfl
    | cons s rest => cases completion <;> rfl

/-! ### Returns -/

/-- Of the branches of a conditional, the first one whose condition counts as true has the
    statements `body`, or none has and `body` is what is done otherwise. The conditions up to it are
    evaluated from `m` on, and `after` is the state in which that ends. -/
inductive Takes (e : Evaluator) (scope : ScopeId) (otherwise : Option (List Node)) :
    Machine → List (Branch Node) → List Node → Machine → Prop where
  | first {m after : Machine} {branch : Branch Node} {value : Node} (others : List (Branch Node))
      (h : m.perform (e.expression scope branch.condition) = (.ok value, after))
      (htrue : value.isTruthy = true) : Takes e scope otherwise m (branch :: others) branch.body after
  | next {m between after : Machine} {branch : Branch Node} {others : List (Branch Node)}
      {value : Node} {body : List Node}
      (h : m.perform (e.expression scope branch.condition) = (.ok value, between))
      (hfalse : value.isTruthy = false) (hothers : Takes e scope otherwise between others body after) :
      Takes e scope otherwise m (branch :: others) body after
  | otherwise {m : Machine} {body : List Node} (h : otherwise = some body) :
      Takes e scope otherwise m [] body m

/-- A conditional returns where the branch taken does. -/
theorem perform_choose_returned {otherwise : Option (List Node)} {branches : List (Branch Node)}
    {m after : Machine} {n : Node} :
    m.perform (e.choose scope otherwise branches) = (.ok (.returned n), after) ↔
      ∃ body between, Takes e scope otherwise m branches body between ∧
        between.perform (e.block scope body) = (.ok (.returned n), after) := by
  induction branches generalizing m with
  | nil =>
      refine ⟨fun h => ?_, fun ⟨body, between, htakes, h⟩ => ?_⟩
      · cases otherwise with
        | none => cases h
        | some body => exact ⟨body, m, .otherwise rfl, h⟩
      · cases htakes with
        | otherwise hbody =>
            subst hbody
            exact h
  | cons branch others ih =>
      rw [choose, Machine.perform_bind]
      rcases hvalue : m.perform (e.expression scope branch.condition) with ⟨error | value, between⟩
      · refine ⟨fun h => (by cases h), fun ⟨body, between, htakes, h⟩ => ?_⟩
        cases htakes with
        | first _ h => rw [hvalue] at h; cases h
        | next h => rw [hvalue] at h; cases h
      · simp only
        -- the value of the condition leaves one way only in which a branch can be taken
        cases htruthy : value.isTruthy with
        | true =>
            refine ⟨fun h => ⟨_, _, .first others hvalue htruthy, h⟩, ?_⟩
            rintro ⟨body, between', htakes, h⟩
            cases htakes with
            | first _ h' => rw [hvalue] at h'; cases h'; exact h
            | next h' hfalse => rw [hvalue] at h'; cases h'; rw [htruthy] at hfalse; cases hfalse
        | false =>
            refine Iff.trans ih ⟨?_, ?_⟩
            · rintro ⟨body, between', htakes, h⟩
              exact ⟨body, between', .next hvalue htruthy htakes, h⟩
            · rintro ⟨body, between', htakes, h⟩
              cases htakes with
              | first _ h' htrue => rw [hvalue] at h'; cases h'; rw [htruthy] at htrue; cases htrue
              | next h' _ htakes => rw [hvalue] at h'; cases h'; exact ⟨body, between', htakes, h⟩

end Blocks

/-- The statements that return are the return itself and conditionals. -/
theorem perform_execute_returned {traced : Bool} {e : Evaluator} {scope : ScopeId}
    {m after : Machine} {s n : Node}
    (h : m.perform (execute traced e scope s) = (.ok (.returned n), after)) :
    (∃ value, s = .giveBack value ∧ (m.perform (Run.trace traced "Executing: Return")).2.perform
        (e.expression scope value) = (.ok n, after)) ∨
      ∃ first others otherwise, s = .conditional first others otherwise ∧
        (m.perform (Run.trace traced "Executing: Condition")).2.perform
          (e.choose scope otherwise (first :: others)) = (.ok (.returned n), after) := by
  unfold execute at h
  rw [Machine.perform_bind, Machine.perform_trace] at h
  cases s with
  | giveBack value =>
      refine .inl ⟨value, rfl, ?_⟩
      simp only [Machine.perform_bind] at h
      rw [Machine.perform_trace]
      split at h
      · rename_i result between hvalue
        cases h
        exact hvalue
      · cases h
  | conditional first others otherwise =>
      refine .inr ⟨first, others, otherwise, rfl, ?_⟩
      rw [Machine.perform_trace]
      exact h
  | evaluation value | definition name value =>
      simp only [Machine.perform_bind] at h
      split at h <;> cases h
  | print values =>
      simp only [Machine.perform_bind] at h
      split at h
      · split at h <;> cases h
      · cases h
  | _ => cases h

theorem perform_execute_giveBack {traced : Bool} {e : Evaluator} {scope : ScopeId}
    {m after : Machine} {value n : Node}
    (h : (m.perform (Run.trace traced "Executing: Return")).2.perform (e.expression scope value) =
      (.ok n, after)) :
    m.perform (execute traced e scope (.giveBack value)) = (.ok (.returned n), after) := by
  rw [Machine.perform_trace] at h
  unfold execute
  rw [Machine.perform_bind, Machine.perform_trace]
  exact Machine.perform_bind_of_ok _ h

theorem perform_execute_conditional {traced : Bool} {e : Evaluator} {scope : ScopeId}
    {m : Machine} {first : Branch Node} {others : List (Branch Node)}
    {otherwise : Option (List Node)} :
    m.perform (execute traced e scope (.conditional first others otherwise)) =
      (m.perform (Run.trace traced "Executing: Condition")).2.perform
        (e.choose scope otherwise (first :: others)) := by
  unfold execute
  rw [Machine.perform_bind, Machine.perform_trace, Machine.perform_trace]
  rfl

/-- Statements that are run from `m` on come upon a return: it stands among them, or in the branch
    that is taken of a conditional among them, to whatever depth. It gives `n`, and the run has come
    to the state `after`. -/
inductive Returns (traced : Bool) : (limit : Nat) → ScopeId → Machine → List Node → Node →
    Machine → Prop where
  | here {limit : Nat} {scope : ScopeId} {m after : Machine} {value n : Node} (rest : List Node)
      (h : (m.perform (Run.trace traced "Executing: Return")).2.perform
        ((within traced limit).expression scope value) = (.ok n, after)) :
      Returns traced (limit + 1) scope m (.giveBack value :: rest) n after
  | inside {limit : Nat} {scope : ScopeId} {m between after : Machine} {first : Branch Node}
      {others : List (Branch Node)} {otherwise : Option (List Node)} {body : List Node} {n : Node}
      (rest : List Node)
      (htakes : Takes (within traced limit) scope otherwise
        (m.perform (Run.trace traced "Executing: Condition")).2 (first :: others) body between)
      (h : Returns traced limit scope between body n after) :
      Returns traced (limit + 1) scope m (.conditional first others otherwise :: rest) n after
  | later {limit : Nat} {scope : ScopeId} {m between after : Machine} {s n : Node}
      {rest : List Node} {completion : Completion}
      (hs : m.perform ((within traced limit).statement scope s) = (.ok completion, between))
      (hreturn : completion.isReturn = false)
      (h : Returns traced limit scope between rest n after) :
      Returns traced limit scope m (s :: rest) n after

theorem returns_of_perform_blockFrom {traced : Bool} {limit : Nat} {scope : ScopeId}
    {m after : Machine} {p : List Node} {n : Node} {last : Completion}
    (hlast : last.isReturn = false)
    (h : m.perform ((within traced limit).blockFrom scope last p) = (.ok (.returned n), after)) :
    Returns traced limit scope m p n after := by
  -- the depth of conditionals goes down with the limit, the statements of one block with the list
  induction limit generalizing scope m after p n last with
  | zero =>
      cases p with
      | nil => cases h; cases hlast
      | cons s rest => cases h
  | succ limit ih =>
      induction p generalizing m last with
      | nil => cases h; cases hlast
      | cons s rest ihrest =>
          rcases hs : m.perform ((within traced (limit + 1)).statement scope s) with
            ⟨error | completion, between⟩
          · rw [blockFrom, Machine.perform_bind_of_error _ hs] at h
            cases h
          · cases hreturn : completion.isReturn with
            | false =>
                rw [perform_blockFrom_cons hs hreturn] at h
                exact .later hs hreturn (ihrest hreturn h)
            | true =>
                rw [blockFrom, Machine.perform_bind_of_ok _ hs] at h
                cases completion with
                | nothing | value => cases hreturn
                | returned n' =>
                    cases h
                    rcases perform_execute_returned hs with
                      ⟨value, rfl, hvalue⟩ | ⟨first, others, otherwise, rfl, hchoose⟩
                    · exact .here rest hvalue
                    · obtain ⟨body, mid, htakes, hbody⟩ := perform_choose_returned.1 hchoose
                      exact .inside rest htakes (ih rfl hbody)

theorem Returns.perform_blockFrom {traced : Bool} {limit : Nat} {scope : ScopeId}
    {m after : Machine} {p : List Node} {n : Node} (h : Returns traced limit scope m p n after)
    (last : Completion) :
    m.perform ((within traced limit).blockFrom scope last p) = (.ok (.returned n), after) := by
  have hreturned {e : Evaluator} {scope : ScopeId} {m after : Machine} {s n : Node}
      {rest : List Node} {last : Completion}
      (hs : m.perform (e.statement scope s) = (.ok (.returned n), after)) :
      m.perform (e.blockFrom scope last (s :: rest)) = (.ok (.returned n), after) := by
    rw [blockFrom, Machine.perform_bind_of_ok _ hs]
    rfl
  induction h generalizing last with
  | here rest h =>
      exact hreturned (perform_execute_giveBack h)
  | inside rest htakes _ ih =>
      refine hreturned (perform_execute_conditional.trans ?_)
      exact perform_choose_returned.2 ⟨_, _, htakes, ih .nothing⟩
  | later hs hreturn _ ih =>
      rw [perform_blockFrom_cons hs hreturn]
      exact ih _

/-- A block returns exactly where a return is come upon. -/
theorem perform_block_returned {traced : Bool} {limit : Nat} {scope : ScopeId} {m after : Machine}
    {p : List Node} {n : Node} :
    m.perform ((within traced limit).block scope p) = (.ok (.returned n), after) ↔
      Returns traced limit scope m p n after :=
  ⟨returns_of_perform_blockFrom rfl, fun h => h.perform_blockFrom .nothing⟩

end Evaluator

/-! ## Running in pieces -/

/-- Statements that are cut in two run as their two parts one after the other. This holds of a
    program, where a return ends nothing, in every scope and every state, and so of the programs of
    a session. It holds of a block as well, unless a return is come upon in the first part: what the
    block gives, and the state in which it ends, then do not depend on the second. -/
theorem Machine.runs_in_pieces (traced : Bool) (limit : Nat) (scope : ScopeId) (m : Machine)
    (p q : List Node) :
    (∀ e after, m.interpretIn scope traced limit p = (.stopped e, after) →
      m.interpretIn scope traced limit (p ++ q) = (.stopped e, after)) ∧
    (∀ value after, m.interpretIn scope traced limit p = (.finished value, after) →
      m.interpretIn scope traced limit (p ++ q) =
        if q.isEmpty then (.finished value, after)
        else after.interpretIn scope traced limit q) ∧
    (∀ (s after : Session) (programs : List (List Node)), s.interpretAll? programs = some after ↔
      ∃ value, s.interpret programs.flatten = (.finished value, after)) ∧
    (∀ n after, Evaluator.Returns traced limit scope m p n after →
      m.perform ((Evaluator.within traced limit).block scope p) = (.ok (.returned n), after) ∧
      m.perform ((Evaluator.within traced limit).block scope (p ++ q)) =
        (.ok (.returned n), after)) ∧
    ((∀ n after, ¬ Evaluator.Returns traced limit scope m p n after) →
      m.perform ((Evaluator.within traced limit).block scope (p ++ q)) =
        match m.perform ((Evaluator.within traced limit).block scope p) with
        | (.ok completion, after) =>
          if q.isEmpty then (.ok completion, after)
          else after.perform ((Evaluator.within traced limit).block scope q)
        | (.error e, after) => (.error e, after)) := by
  refine ⟨fun e after h => interpretIn_append_of_stopped h q,
    fun value after h => interpretIn_append_of_finished h q,
    fun s after programs => Session.interpretAll?_eq_some, fun n after h => ?_, fun h => ?_⟩
  · rw [← Evaluator.perform_block_returned] at h
    refine ⟨h, ?_⟩
    rw [Evaluator.perform_block_append, h]
    rfl
  · rw [Evaluator.perform_block_append]
    rcases hp : m.perform ((Evaluator.within traced limit).block scope p) with
      ⟨error | completion, after⟩
    · rfl
    · cases completion with
      | returned n => exact absurd (Evaluator.perform_block_returned.1 hp) (h n after)
      | nothing | value => rfl

theorem Machine.runs_in_pieces_choice :
    let one : Node := .literal (.number 1)
    let choice : Node := .conditional ⟨.literal (.boolean true), [.giveBack one]⟩ [] none
    let unknown : Node := .evaluation (.reference "a")
    let m := Machine.start []
    m.interpretIn Machine.root false 3 ([choice] ++ [.print [one]]) =
      m.interpretIn Machine.root false 3 [.print [one]] ∧
    m.interpretIn Machine.root false 3 ([unknown] ++ [choice]) =
      (.stopped (.undefinedVariable "a"), m) ∧
    m.perform ((Evaluator.within false 3).block Machine.root ([choice] ++ [.print [one]])) =
      (.ok (.returned one), m) ∧
    m.perform ((Evaluator.within false 3).block Machine.root ([.evaluation one] ++ [choice])) =
      m.perform ((Evaluator.within false 3).block Machine.root [choice]) := by
  intro one choice unknown m
  have hchoice := Machine.runs_in_pieces false 3 Machine.root m [choice] [.print [one]]
  have hunknown := Machine.runs_in_pieces false 3 Machine.root m [unknown] [choice]
  have hone := Machine.runs_in_pieces false 3 Machine.root m [.evaluation one] [choice]
  have hreturns : Evaluator.Returns false 3 Machine.root m [choice] one m :=
    Evaluator.perform_block_returned.1 rfl
  have hnone (n : Node) (after : Machine) :
      ¬ Evaluator.Returns false 3 Machine.root m [.evaluation one] n after := by
    intro h
    cases Evaluator.perform_block_returned.2 h
  exact ⟨hchoice.2.1 (some one) m rfl, hunknown.1 (.undefinedVariable "a") m rfl,
    (hchoice.2.2.2.1 one m hreturns).2, hone.2.2.2.2 hnone⟩

end Klartext
