import Klartext.Proofs.Depth.Evaluation

set_option autoImplicit false

/-! # Conditionals with further branches

A conditional with further branches does what a conditional without any does that holds, in its
`otherwise`, the conditional of the next branch, and so on to the last (`Node.nestedConditional`). Each
branch that is nested like this takes one more level of depth, so that the two differ where one of
them is stopped at the limit, and nowhere else.

Either way the conditions are evaluated in order up to the first that counts as true or fails, and at
most one of the bodies is run (`Evaluator.Decides`). -/

namespace Klartext

namespace Node

/-- The conditional of the first of the branches as a block by itself, with the conditional of the next
    one in its `otherwise`, and so on; behind the last of them `otherwise`. -/
def nestedBranches (otherwise : Option (List Node)) : List (Branch Node) → Option (List Node)
  | [] => otherwise
  | next :: others => some [.conditional next [] (nestedBranches otherwise others)]

/-- A conditional with each further branch nested in the one before it. -/
def nestedConditional (first : Branch Node) (others : List (Branch Node))
    (otherwise : Option (List Node)) : Node :=
  .conditional first [] (nestedBranches otherwise others)

end Node

namespace Evaluator

open Node Run

/-! ## Which branch is taken -/

/-- The conditions of the branches are evaluated one after the other from a state on, and none of them
    counts as true. -/
inductive Passes (e : Evaluator) (scope : ScopeId) :
    Machine → List (Branch Node) → Machine → Prop where
  | nil (m : Machine) : Passes e scope m [] m
  | cons {m between after : Machine} {branch : Branch Node} {others : List (Branch Node)}
      {value : Node} (h : m.perform (e.expression scope branch.condition) = (.ok value, between))
      (hfalse : value.isTruthy = false) (hothers : Passes e scope between others after) :
      Passes e scope m (branch :: others) after

/-- How a conditional ends. The branches behind the one that decides it have no part in that. -/
inductive Decides (e : Evaluator) (scope : ScopeId) (otherwise : Option (List Node)) (m : Machine)
    (branches : List (Branch Node)) : Except RuntimeError Completion × Machine → Prop where
  | taken {passed others : List (Branch Node)} {branch : Branch Node} {between after : Machine}
      {value : Node} (hbranches : branches = passed ++ branch :: others)
      (hpassed : Passes e scope m passed between)
      (h : between.perform (e.expression scope branch.condition) = (.ok value, after))
      (htrue : value.isTruthy = true) :
      Decides e scope otherwise m branches (after.perform (e.block scope branch.body))
  | failed {passed others : List (Branch Node)} {branch : Branch Node} {between after : Machine}
      {error : RuntimeError} (hbranches : branches = passed ++ branch :: others)
      (hpassed : Passes e scope m passed between)
      (h : between.perform (e.expression scope branch.condition) = (.error error, after)) :
      Decides e scope otherwise m branches (.error error, after)
  | otherwise {body : List Node} {after : Machine} (hpassed : Passes e scope m branches after)
      (h : otherwise = some body) :
      Decides e scope otherwise m branches (after.perform (e.block scope body))
  | nothing {after : Machine} (hpassed : Passes e scope m branches after) (h : otherwise = none) :
      Decides e scope otherwise m branches (.ok .nothing, after)

section Choice

variable {e : Evaluator} {scope : ScopeId} {otherwise : Option (List Node)}

/-- A branch whose condition does not count as true leaves the decision to the others. -/
theorem Decides.next {m between : Machine} {branch : Branch Node} {others : List (Branch Node)}
    {value : Node} {ending : Except RuntimeError Completion × Machine}
    (h : m.perform (e.expression scope branch.condition) = (.ok value, between))
    (hfalse : value.isTruthy = false) (hothers : Decides e scope otherwise between others ending) :
    Decides e scope otherwise m (branch :: others) ending := by
  cases hothers with
  | taken hbranches hpassed hvalue htrue =>
      exact .taken (congrArg (branch :: ·) hbranches) (.cons h hfalse hpassed) hvalue htrue
  | failed hbranches hpassed hvalue =>
      exact .failed (congrArg (branch :: ·) hbranches) (.cons h hfalse hpassed) hvalue
  | otherwise hpassed hbody => exact .otherwise (.cons h hfalse hpassed) hbody
  | nothing hpassed hnone => exact .nothing (.cons h hfalse hpassed) hnone

theorem decides_choose (m : Machine) (branches : List (Branch Node)) :
    Decides e scope otherwise m branches (m.perform (e.choose scope otherwise branches)) := by
  induction branches generalizing m with
  | nil =>
      cases otherwise with
      | none => exact .nothing (.nil m) rfl
      | some body => exact .otherwise (.nil m) rfl
  | cons branch others ih =>
      have hfirst : branch :: others = [] ++ branch :: others := rfl
      rw [choose, Machine.perform_bind]
      rcases hvalue : m.perform (e.expression scope branch.condition) with ⟨error | value, between⟩
      · exact .failed hfirst (.nil m) hvalue
      · simp only
        cases htruthy : value.isTruthy with
        | true => exact .taken hfirst (.nil m) hvalue htruthy
        | false => exact .next hvalue htruthy (ih between)

/-- A block of one statement is that statement. -/
theorem block_singleton (s : Node) : e.block scope [s] = e.statement scope s := by
  funext m
  change EStateM.bind (e.statement scope s) _ m = e.statement scope s m
  rw [EStateM.bind]
  cases e.statement scope s m with
  | error => rfl
  | ok completion => cases completion <;> rfl

end Choice

/-! ## Nested branches -/

section Nested

variable (sink : Sink) (scope : ScopeId) (otherwise : Option (List Node))

/-- Without a trace, a conditional does nothing but choose. -/
theorem statement_conditional (limit : Nat) (first : Branch Node) (others : List (Branch Node)) :
    (withinTo sink false (limit + 1)).statement scope (.conditional first others otherwise) =
      (withinTo sink false limit).choose scope otherwise (first :: others) := rfl

/-- What is nested does not take fewer levels. -/
theorem deepens_chain (limit : Nat) (first : Branch Node) (others : List (Branch Node)) :
    Run.Deepens
      ((withinTo sink false limit).choose scope (nestedBranches otherwise others) [first])
      ((withinTo sink false limit).choose scope otherwise (first :: others)) := by
  induction others generalizing limit first with
  | nil => exact (deepens_self sink false limit).choose scope otherwise [first]
  | cons branch others ih =>
      have hself := deepens_self sink false limit
      refine (hself.expression scope first.condition).bind fun value => ?_
      split
      · exact hself.block scope first.body
      · -- the conditional of the next branch is one level further down
        rw [nestedBranches, choose]
        simp only [block_singleton]
        cases limit with
        | zero => exact (hself.choose scope otherwise (branch :: others)).of_tooDeep
        | succ limit =>
            have hdeeper := deepens_withinTo sink false (Nat.le_succ limit)
            rw [statement_conditional]
            exact (ih limit branch).trans (hdeeper.choose scope otherwise (branch :: others))

/-- For each further branch one more level is enough. -/
theorem deepens_nested (limit : Nat) (first : Branch Node) (others : List (Branch Node)) :
    Run.Deepens ((withinTo sink false limit).choose scope otherwise (first :: others))
      ((withinTo sink false (limit + others.length)).choose scope (nestedBranches otherwise others)
        [first]) := by
  induction others generalizing first with
  | nil => exact (deepens_self sink false limit).choose scope otherwise [first]
  | cons branch others ih =>
      have hmore := deepens_withinTo sink false (Nat.le_add_right limit (branch :: others).length)
      refine (hmore.expression scope first.condition).bind fun value => ?_
      split
      · exact hmore.block scope first.body
      · rw [nestedBranches, choose.eq_def _ scope (some _) []]
        simp only [block_singleton, List.length_cons, ← Nat.add_assoc]
        rw [statement_conditional]
        exact ih branch

end Nested

/-- Further branches are nested conditionals. From every state and in every scope, and wherever the
    values go that are printed, a conditional with further branches has the same result and ends in the
    same state as the one with nested branches, as long as the limit of depth does not stop it; for
    that, the nested one needs at most a level more for each further branch. The conditions are
    evaluated in order, up to the one that decides. -/
theorem conditional_eq_nested (sink : Sink) (m : Machine) (scope : ScopeId) (first : Branch Node)
    (others : List (Branch Node)) (otherwise : Option (List Node)) :
    let chain (limit : Nat) := m.perform
      ((withinTo sink false limit).statement scope (.conditional first others otherwise))
    let nested (limit : Nat) := m.perform
      ((withinTo sink false limit).statement scope (nestedConditional first others otherwise))
    (∀ limit, (nested limit).1 ≠ .error .tooDeep → chain limit = nested limit) ∧
    (∀ limit, (chain limit).1 ≠ .error .tooDeep → nested (limit + others.length) = chain limit) ∧
    ∀ limit, Decides (withinTo sink false limit) scope otherwise m (first :: others)
      (chain (limit + 1)) := by
  intro chain nested
  refine ⟨fun limit hnested => ?_, fun limit hchain => ?_, fun limit => decides_choose m _⟩
  · cases limit with
    | zero => rfl
    | succ limit =>
        exact (deepens_chain sink scope otherwise limit first others).perform_eq hnested
  · cases limit with
    | zero => exact absurd rfl hchain
    | succ limit =>
        have hdeepens := deepens_nested sink scope otherwise limit first others
        rw [show limit + 1 + others.length = limit + others.length + 1 by omega]
        exact hdeepens.perform_eq hchain

/-- A branch that is taken after one whose condition reads a line of input. -/
theorem conditional_eq_nested_read :
    let read : Node := .operation .equal (.call readLineName []) (.literal (.string "ja"))
    let first : Branch Node := ⟨read, [.print [.literal (.number 1)]]⟩
    let second : Branch Node := ⟨.literal (.boolean true), [.giveBack (.literal (.number 2))]⟩
    let m := Machine.start ["nein", "ja"]
    let chain (limit : Nat) := m.perform ((withinTo .willing false limit).statement Machine.root
      (.conditional first [second] none))
    let nested (limit : Nat) := m.perform ((withinTo .willing false limit).statement Machine.root
      (nestedConditional first [second] none))
    (nested 4).1 ≠ .error .tooDeep ∧ chain 4 = nested 4 ∧
      (chain 3).1 ≠ .error .tooDeep ∧ nested 4 = chain 3 := by
  intro read first second m chain nested
  obtain ⟨hchain, hnested, -⟩ := conditional_eq_nested .willing m Machine.root first [second] none
  have hfour : (nested 4).1 ≠ .error .tooDeep := by
    intro h
    cases h
  have hthree : (chain 3).1 ≠ .error .tooDeep := by
    intro h
    cases h
  exact ⟨hfour, hchain 4 hfour, hthree, hnested 3 hthree⟩

end Evaluator

end Klartext
