import Klartext.Proofs.Evaluation.Pieces

set_option autoImplicit false

/-! # The order of definitions

Tables keep the order in which their names were first bound, but nothing that a program does depends
on it: a function is looked up by its name when it is called. So states whose tables of functions have
the same entries in another order (`Machine.Reordered`) lead every step to the same result, and to
states of which this holds again (`Run.Unordered`).

Two definitions of functions with different names, one behind the other, lead to such states in either
order. Hence a program may be changed by swapping them. -/

namespace Klartext

/-! ## Tables in another order -/

namespace Table

variable {α : Type} {t u : Table α}

/-- The same entries, in whatever order. -/
def Reordered (t u : Table α) : Prop := ∀ name, t.get? name = u.get? name

theorem reordered_refl (t : Table α) : t.Reordered t := fun _ => rfl

theorem Reordered.insert (h : t.Reordered u) (name : String) (a : α) :
    (t.insert name a).Reordered (u.insert name a) := by
  intro key
  rw [get?_insert, get?_insert, h key]

/-- Different names may be bound in either order. -/
theorem reordered_insert_comm (t : Table α) {name other : String} (hne : name ≠ other) (a b : α) :
    ((t.insert name a).insert other b).Reordered ((t.insert other b).insert name a) := by
  intro key
  simp only [get?_insert, beq_iff_eq]
  by_cases hkey : key = other
  · rw [if_pos hkey, if_neg fun h => hne (h.symm.trans hkey)]
    rw [if_pos hkey]
  · rw [if_neg hkey, if_neg hkey]

end Table

/-- The same scope, with the functions in whatever order. -/
structure Scope.Reordered (s t : Scope) : Prop where
  parent : s.parent = t.parent
  values : s.values = t.values
  functions : s.functions.Reordered t.functions

/-- The same scopes, with the functions of each in whatever order. -/
structure Scopes.Reordered (a b : Scopes) : Prop where
  size : a.size = b.size
  scope : ∀ {id : ScopeId} {s t : Scope}, a[id]? = some s → b[id]? = some t → s.Reordered t

/-- The same state, with the functions of each scope in whatever order. -/
structure Machine.Reordered (m m' : Machine) : Prop where
  scopes : m.scopes.Reordered m'.scopes
  inputs : m.inputs = m'.inputs
  events : m.events = m'.events

theorem Scope.reordered_refl (s : Scope) : s.Reordered s := ⟨rfl, rfl, s.functions.reordered_refl⟩

namespace Scopes

variable {a b : Scopes}

theorem reordered_refl (a : Scopes) : Scopes.Reordered a a := by
  refine ⟨rfl, fun {id s t} hs ht => ?_⟩
  rw [hs] at ht
  cases ht
  exact s.reordered_refl

namespace Reordered

theorem cases (h : Scopes.Reordered a b) (id : ScopeId) :
    (a[id]? = none ∧ b[id]? = none) ∨ ∃ s t, a[id]? = some s ∧ b[id]? = some t ∧ s.Reordered t := by
  by_cases hid : id < a.size
  · have ha := Array.getElem?_eq_getElem hid
    have hb := Array.getElem?_eq_getElem (h.size ▸ hid)
    exact .inr ⟨_, _, ha, hb, h.scope ha hb⟩
  · have hsize : b.size ≤ id := h.size ▸ Nat.le_of_not_lt hid
    exact .inl ⟨Array.getElem?_eq_none (Nat.le_of_not_lt hid), Array.getElem?_eq_none hsize⟩

/-! ### Looking up -/

/-- What is looked for without regard to the order of functions is found alike. -/
theorem search {α : Type} {look : Scope → Option α} (h : Scopes.Reordered a b)
    (hlook : ∀ {s t : Scope}, s.Reordered t → look s = look t) (id : ScopeId) :
    a.search look id = b.search look id := by
  have hup (bound : Nat) : a.searchUp look bound id = b.searchUp look bound id := by
    induction bound generalizing id with
    | zero => rfl
    | succ bound ih =>
        rw [searchUp, searchUp]
        rcases h.cases id with ⟨ha, hb⟩ | ⟨s, t, ha, hb, hst⟩
        · rw [ha, hb]
        · rw [ha, hb]
          simp only [hlook hst, hst.parent, ih]
  exact hup (id + 1)

theorem findVariable? (h : Scopes.Reordered a b) (id : ScopeId) (name : String) :
    a.findVariable? id name = b.findVariable? id name := by
  rw [Scopes.findVariable?, Scopes.findVariable?, h.search fun hst => by rw [hst.values]]

theorem findFunction? (h : Scopes.Reordered a b) (id : ScopeId) (name : String) :
    a.findFunction? id name = b.findFunction? id name :=
  h.search (fun hst => hst.functions (normalizeName name)) id

/-! ### Changes -/

theorem modify (h : Scopes.Reordered a b) (id : ScopeId) {f g : Scope → Scope}
    (hfg : ∀ {s t : Scope}, s.Reordered t → (f s).Reordered (g t)) :
    Scopes.Reordered (Array.modify a id f) (Array.modify b id g) := by
  refine ⟨by rw [Array.size_modify, Array.size_modify, h.size], fun {i s t} hs ht => ?_⟩
  rw [Array.getElem?_modify] at hs ht
  rcases h.cases i with ⟨ha, -⟩ | ⟨s', t', ha, hb, hst⟩
  · rw [ha] at hs
    split at hs <;> cases hs
  · rw [ha] at hs
    rw [hb] at ht
    split at hs
    · rename_i hid
      rw [if_pos hid] at ht
      cases hs
      cases ht
      exact hfg hst
    · rename_i hid
      rw [if_neg hid] at ht
      cases hs
      cases ht
      exact hst

theorem setVariable (h : Scopes.Reordered a b) (id : ScopeId) (name : String) (value : Node) :
    Scopes.Reordered (a.setVariable id name value) (b.setVariable id name value) := by
  unfold Scopes.setVariable
  exact h.modify id fun hst => ⟨hst.parent, by rw [hst.values], hst.functions⟩

theorem define (h : Scopes.Reordered a b) (id : ScopeId) (name : String) (parameters : List String)
    (body : List Node) :
    Scopes.Reordered (a.define id name parameters body) (b.define id name parameters body) := by
  unfold Scopes.define Scopes.setFunction
  exact h.modify id fun hst => ⟨hst.parent, hst.values, hst.functions.insert _ _⟩

theorem add (h : Scopes.Reordered a b) (parent : Option ScopeId) :
    Scopes.Reordered (a.add parent) (b.add parent) := by
  refine ⟨by rw [Scopes.add, Scopes.add, Array.size_push, Array.size_push, h.size],
    fun {id s t} hs ht => ?_⟩
  rw [Scopes.add, Array.getElem?_push] at hs ht
  rw [← h.size] at ht
  split at hs
  · rename_i hid
    rw [if_pos hid] at ht
    cases hs
    cases ht
    exact Scope.reordered_refl _
  · rename_i hid
    rw [if_neg hid] at ht
    exact h.scope hs ht

end Reordered

/-- Functions with different names may be defined in either order. -/
theorem reordered_define_comm (a : Scopes) (id : ScopeId) {name other : String}
    (hne : normalizeName name ≠ normalizeName other) (parameters parameters' : List String)
    (body body' : List Node) :
    Scopes.Reordered ((a.define id name parameters body).define id other parameters' body')
      ((a.define id other parameters' body').define id name parameters body) := by
  refine ⟨by simp [define, setFunction], fun {i s t} hs ht => ?_⟩
  simp only [define, setFunction, Array.getElem?_modify] at hs ht
  by_cases hid : id = i
  · simp only [if_pos hid] at hs ht
    cases hi : a[i]? with
    | none => simp [hi] at hs
    | some scope =>
        simp only [hi, Option.map_some, Option.some.injEq] at hs ht
        subst hs
        subst ht
        exact ⟨rfl, rfl, scope.functions.reordered_insert_comm hne _ _⟩
  · simp only [if_neg hid] at hs ht
    rw [hs] at ht
    cases ht
    exact s.reordered_refl

end Scopes

theorem Machine.reordered_refl (m : Machine) : m.Reordered m := ⟨m.scopes.reordered_refl, rfl, rfl⟩

/-! ## Steps -/

namespace Run

variable {α β : Type}

/-- Whatever the order of functions is, the step has the same result, and it leads to the same state
    up to this order. -/
def Unordered (p : Run α) : Prop :=
  ∀ m m' : Machine, m.Reordered m' → (m.perform p).1 = (m'.perform p).1 ∧
    (m.perform p).2.Reordered (m'.perform p).2

theorem unordered_pure (a : α) : Unordered (pure a : Run α) := fun _ _ h => ⟨rfl, h⟩

theorem unordered_throw (e : RuntimeError) : Unordered (throw e : Run α) := fun _ _ h => ⟨rfl, h⟩

theorem Unordered.bind {p : Run α} {f : α → Run β} (h : Unordered p) (hf : ∀ a, Unordered (f a)) :
    Unordered (p >>= f) := by
  intro m m' hm
  obtain ⟨hresult, hafter⟩ := h m m' hm
  rw [Machine.perform_bind, Machine.perform_bind]
  rcases hp : m.perform p with ⟨result, after⟩
  rcases hq : m'.perform p with ⟨result', after'⟩
  rw [hp, hq] at hresult hafter
  obtain rfl : result = result' := hresult
  cases result with
  | error e => exact ⟨rfl, hafter⟩
  | ok a => exact hf a after after' hafter

/-- A step may look at the state as long as it does not see the order of functions. -/
theorem unordered_get_bind {f : Machine → Run β}
    (hsame : ∀ m m' : Machine, m.Reordered m' → f m = f m') (hf : ∀ m, Unordered (f m)) :
    Unordered (get >>= f) := by
  intro m m' hm
  rw [Machine.perform_get_bind, Machine.perform_get_bind, hsame m m' hm]
  exact hf m' m m' hm

theorem unordered_modify {f : Machine → Machine}
    (hf : ∀ m m' : Machine, m.Reordered m' → (f m).Reordered (f m')) :
    Unordered (modify f : Run PUnit) := fun m m' hm => ⟨rfl, hf m m' hm⟩

theorem unordered_record (event : Event) : Unordered (record event) :=
  unordered_modify fun _ _ hm => ⟨hm.scopes, hm.inputs, by rw [hm.events]⟩

theorem unordered_trace (traced : Bool) (line : String) : Unordered (trace traced line) := by
  cases traced
  · exact unordered_pure ()
  · exact unordered_record _

theorem unordered_updateScopes {f : Scopes → Scopes}
    (hf : ∀ a b : Scopes, Scopes.Reordered a b → Scopes.Reordered (f a) (f b)) :
    Unordered (updateScopes f) :=
  unordered_modify fun _ _ hm => ⟨hf _ _ hm.scopes, hm.inputs, hm.events⟩

theorem unordered_ofExcept (r : Except RuntimeError α) : Unordered (ofExcept r) := by
  cases r with
  | error e => exact unordered_throw e
  | ok a => exact unordered_pure a

end Run

namespace Evaluator

open Run

/-- The evaluator does not see the order of functions. -/
structure Unordered (e : Evaluator) : Prop where
  expression : ∀ scope node, Run.Unordered (e.expression scope node)
  statement : ∀ scope node, Run.Unordered (e.statement scope node)

/-! ## What nothing is nested in -/

theorem unordered_builtin (action : Builtin) : Run.Unordered (builtin action) := by
  cases action with
  | readLine input =>
      refine unordered_get_bind (fun m m' hm => by rw [hm.inputs]) fun m => ?_
      split
      · refine Run.Unordered.bind ?_ fun _ => unordered_pure _
        exact unordered_modify fun _ _ hm => ⟨hm.scopes, by simp only [hm.inputs], hm.events⟩
      · exact unordered_throw _
  | constant result => exact unordered_pure result

theorem unordered_bindParameters (scope : ScopeId) (names : List String) (values : List Node) :
    Run.Unordered (Evaluator.bind scope names values) := by
  induction names generalizing values with
  | nil => exact unordered_pure ()
  | cons name names ih =>
      cases values with
      | nil => exact unordered_pure ()
      | cons value values =>
          exact (unordered_updateScopes fun _ _ h => h.setVariable _ _ _).bind fun _ => ih values

theorem unordered_print (values : List Node) : Run.Unordered (print values) := by
  induction values with
  | nil => exact unordered_pure ()
  | cons n rest ih =>
      exact (unordered_ofExcept _).bind fun _ => (unordered_record _).bind fun _ => ih

/-! ## The rules -/

namespace Unordered

variable {e : Evaluator} (he : e.Unordered)
include he

theorem expressions (scope : ScopeId) (nodes : List Node) :
    Run.Unordered (e.expressions scope nodes) := by
  induction nodes with
  | nil => exact unordered_pure []
  | cons n rest ih =>
      exact (he.expression scope n).bind fun _ => ih.bind fun _ => unordered_pure _

theorem block (scope : ScopeId) (statements : List Node) :
    Run.Unordered (e.block scope statements) := by
  have hfrom (last : Completion) : Run.Unordered (e.blockFrom scope last statements) := by
    induction statements generalizing last with
    | nil => exact unordered_pure last
    | cons s rest ih =>
        refine (he.statement scope s).bind fun completion => ?_
        split
        · exact unordered_pure _
        · exact ih completion
  exact hfrom .nothing

theorem apply (function : Function) (values : List Node) :
    Run.Unordered (e.apply function values) := by
  cases function with
  | builtin _ _ action => exact unordered_builtin action
  | defined name parameters body closure =>
      refine unordered_get_bind (fun m m' hm => by rw [hm.scopes.size]) fun m => ?_
      refine (unordered_updateScopes fun _ _ h => h.add _).bind fun _ => ?_
      refine (unordered_bindParameters _ _ _).bind fun _ =>
        (he.block _ body).bind fun completion => ?_
      split <;> exact unordered_pure _

theorem call (traced : Bool) (scope : ScopeId) (name : String) (arguments : List Node) :
    Run.Unordered (call traced e scope name arguments) := by
  refine unordered_get_bind (fun m m' hm => by rw [hm.scopes.findFunction?]) fun m => ?_
  split
  · exact unordered_throw _
  · rename_i function _
    have hcalled : Run.Unordered (do
        let values ← e.expressions scope arguments
        Run.trace traced s!"Calling {function.name} with {values.length} arguments"
        e.apply function values) :=
      (he.expressions scope arguments).bind fun values =>
        (unordered_trace traced _).bind fun _ => he.apply function values
    split
    · exact (unordered_throw _).bind fun _ => hcalled
    · exact hcalled

theorem evaluate (traced : Bool) (scope : ScopeId) (node : Node) :
    Run.Unordered (evaluate traced e scope node) := by
  refine (unordered_trace traced _).bind fun _ => ?_
  cases node with
  | literal v => exact unordered_pure _
  | operation operator left right =>
      exact (he.expression scope left).bind fun _ => (he.expression scope right).bind fun _ =>
        (unordered_ofExcept _).bind fun _ => unordered_pure _
  | reference name =>
      refine unordered_get_bind (fun m m' hm => by rw [hm.scopes.findVariable?]) fun m => ?_
      split
      · exact unordered_pure _
      · exact unordered_throw _
  | call name arguments => exact he.call traced scope name arguments
  | _ => exact unordered_throw _

theorem choose (scope : ScopeId) (otherwise : Option (List Node)) (branches : List (Branch Node)) :
    Run.Unordered (e.choose scope otherwise branches) := by
  induction branches with
  | nil =>
      cases otherwise with
      | none => exact unordered_pure _
      | some body => exact he.block scope body
  | cons branch others ih =>
      refine (he.expression scope branch.condition).bind fun value => ?_
      split
      · exact he.block scope branch.body
      · exact ih

theorem execute (traced : Bool) (scope : ScopeId) (node : Node) :
    Run.Unordered (execute traced e scope node) := by
  refine (unordered_trace traced _).bind fun _ => ?_
  cases node with
  | evaluation value => exact (he.expression scope value).bind fun _ => unordered_pure _
  | definition name value =>
      exact (he.expression scope value).bind fun _ =>
        (unordered_updateScopes fun _ _ h => h.setVariable _ _ _).bind fun _ => unordered_pure _
  | function name parameters body =>
      exact (unordered_updateScopes fun _ _ h => h.define _ _ _ _).bind fun _ => unordered_pure _
  | giveBack value => exact (he.expression scope value).bind fun _ => unordered_pure _
  | print values =>
      exact (he.expressions scope values).bind fun values =>
        (unordered_print values).bind fun _ => unordered_pure _
  | conditional first others otherwise => exact he.choose scope otherwise (first :: others)
  | _ => exact unordered_throw _

theorem statements (scope : ScopeId) (last : Option Node) (nodes : List Node) :
    Run.Unordered (e.statements scope last nodes) := by
  induction nodes generalizing last with
  | nil => exact unordered_pure last
  | cons s rest ih => exact (he.statement scope s).bind fun completion => ih completion.node?

end Unordered

/-- At no depth does an evaluation depend on the order of functions. -/
theorem unordered_within (traced : Bool) (limit : Nat) : (within traced limit).Unordered := by
  induction limit with
  | zero => exact ⟨fun _ _ => unordered_throw _, fun _ _ => unordered_throw _⟩
  | succ limit ih => exact ⟨ih.evaluate traced, ih.execute traced⟩

/-! ## Definitions in either order -/

section Definitions

variable {name other : String} (hne : normalizeName name ≠ normalizeName other)
  (parameters parameters' : List String) (body body' : List Node)
include hne

/-- Two definitions lead to the same state in either order, up to the order of functions; from there
    the rest of the program runs alike. -/
theorem perform_statements_swapped (traced : Bool) (limit : Nat) (scope : ScopeId)
    (last : Option Node) (rest : List Node) (m : Machine) :
    let e := within traced limit
    let first : Node := .function name parameters body
    let second : Node := .function other parameters' body'
    (m.perform (e.statements scope last (first :: second :: rest))).1 =
        (m.perform (e.statements scope last (second :: first :: rest))).1 ∧
      (m.perform (e.statements scope last (first :: second :: rest))).2.Reordered
        (m.perform (e.statements scope last (second :: first :: rest))).2 := by
  cases limit with
  | zero => exact ⟨rfl, m.reordered_refl⟩
  | succ limit =>
      have hrest := (unordered_within traced (limit + 1)).statements scope none rest
      have hdefined := m.scopes.reordered_define_comm scope hne parameters parameters' body body'
      cases traced
      · exact hrest _ _ ⟨hdefined, rfl, rfl⟩
      · exact hrest _ _ ⟨hdefined, rfl, rfl⟩

end Definitions

end Evaluator

/-! ## Programs -/

/-- Two definitions of functions that stand next to each other in a program may be swapped if the
    functions have different names. In every scope, from every state and at every depth the program
    has the same outcome, records the same, leaves the same input to be read, and ends with the same
    scopes: with the same variables in the same order, and with the same functions, of which only the
    order may differ. -/
theorem Machine.interpretIn_swapped (traced : Bool) (limit : Nat) (m : Machine) (scope : ScopeId)
    (before rest : List Node) {name other : String}
    (hne : normalizeName name ≠ normalizeName other) (parameters parameters' : List String)
    (body body' : List Node) :
    let first : Node := .function name parameters body
    let second : Node := .function other parameters' body'
    let run := m.interpretIn scope traced limit (before ++ first :: second :: rest)
    let swapped := m.interpretIn scope traced limit (before ++ second :: first :: rest)
    run.1 = swapped.1 ∧ run.2.printed = swapped.2.printed ∧ run.2.events = swapped.2.events ∧
      run.2.inputs = swapped.2.inputs ∧ run.2.scopes.size = swapped.2.scopes.size ∧
      ∀ (id : ScopeId) (s t : Scope),
        run.2.scopes[id]? = some s → swapped.2.scopes[id]? = some t →
          s.parent = t.parent ∧ s.values = t.values ∧
            ∀ key, s.functions.get? key = t.functions.get? key := by
  intro first second run swapped
  have hboth : run.1 = swapped.1 ∧ run.2.Reordered swapped.2 := by
    simp only [run, swapped, interpretIn, Evaluator.perform_statements_append]
    rcases m.perform ((Evaluator.within traced limit).statements scope none before) with
      ⟨e | value, between⟩
    · exact ⟨rfl, between.reordered_refl⟩
    · obtain ⟨hresult, hafter⟩ := Evaluator.perform_statements_swapped hne parameters parameters'
        body body' traced limit scope value rest between
      simp only
      rcases hp : between.perform ((Evaluator.within traced limit).statements scope value
        (first :: second :: rest)) with ⟨result, after⟩
      rcases hq : between.perform ((Evaluator.within traced limit).statements scope value
        (second :: first :: rest)) with ⟨result', after'⟩
      rw [hp, hq] at hresult hafter
      obtain rfl : result = result' := hresult
      cases result <;> exact ⟨rfl, hafter⟩
  obtain ⟨houtcome, hafter⟩ := hboth
  refine ⟨houtcome, by rw [printed, printed, hafter.events], hafter.events, hafter.inputs,
    hafter.scopes.size, fun id s t hs ht => ?_⟩
  have hst := hafter.scopes.scope hs ht
  exact ⟨hst.parent, hst.values, hst.functions⟩

/-- A function and the one that it calls, which takes the place of the function that reads a line. -/
theorem Machine.interpretIn_swapped_called :
    let answer : Node := .function "antwort" [] [.giveBack (.call readLineName [])]
    let readLine : Node := .function readLineName [] [.giveBack (.literal (.number 2))]
    let rest : List Node := [.evaluation (.call "antwort" [])]
    let m := Machine.start ["nein"]
    let run := m.interpretIn Machine.root false 9 (answer :: readLine :: rest)
    let swapped := m.interpretIn Machine.root false 9 (readLine :: answer :: rest)
    normalizeName "antwort" ≠ normalizeName readLineName ∧
      run.1 = swapped.1 ∧ run.1 = .finished (some (.literal (.number 2))) ∧
      run.2.inputs = swapped.2.inputs := by
  intro answer readLine rest m run swapped
  have hne : normalizeName "antwort" ≠ normalizeName readLineName := by decide +kernel
  obtain ⟨houtcome, -, -, hinputs, -⟩ := Machine.interpretIn_swapped false 9 m Machine.root [] rest
    hne [] [] [.giveBack (.call readLineName [])] [.giveBack (.literal (.number 2))]
  exact ⟨hne, houtcome, rfl, hinputs⟩

end Klartext
