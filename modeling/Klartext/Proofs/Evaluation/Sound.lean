import Klartext.Proofs.Evaluation.Reachable
import Klartext.Proofs.Rules.Tree

set_option autoImplicit false

/-! # What holds in every state of a run

A program that was read has names in normal form and every node in its place. Run from the state in
which a program starts, it keeps the scopes *sound* (`Scopes.Sound`): a scope lies within an older
one, names are kept in normal form, variables stand for values, and functions close over the scope
that holds them and have bodies that were read.

`Run.Keeps` says of a step that it ends in sound scopes if it starts in sound ones, and what its
result or its error is. Each rule of the evaluator keeps the scopes sound if the evaluator for what
is nested in it does (`Evaluator.Keeps`), as long as it is given nodes that were read. -/

namespace Klartext

/-! ## Sound scopes -/

/-- The node is a literal. -/
def Node.IsValue (node : Node) : Prop := ∃ v, node = .literal v

/-- A function as the scope `own` may hold it. -/
inductive Function.IsSound (own : ScopeId) : Function → Prop where
  | defined {name : String} {parameters : List String} {body : List Node}
      (hparameters : ∀ p ∈ parameters, IsKey p) (hbody : ∀ s ∈ body, s.IsStatement) :
      IsSound own (.defined name parameters body own)
  | readLine (name : String) (parameters : List String) (input : Nat) :
      IsSound own (.builtin name parameters (.readLine input))

/-- Every scope but the first lies within an older one, and what the tables hold is as programs that
    were read can make it. -/
structure Scopes.Sound (scopes : Scopes) : Prop where
  parent : ∀ {id : ScopeId} {s : Scope}, scopes[id]? = some s →
    (id = Machine.root ∧ s.parent = none) ∨ ∃ parent < id, s.parent = some parent
  values : ∀ {id : ScopeId} {s : Scope} {key : String} {value : Node}, scopes[id]? = some s →
    (key, value) ∈ s.values → IsKey key ∧ value.IsValue
  functions : ∀ {id : ScopeId} {s : Scope} {key : String} {f : Function}, scopes[id]? = some s →
    (key, f) ∈ s.functions → IsKey key ∧ f.IsSound id

theorem Table.eq_or_mem_of_mem_insert {α : Type} {t : Table α} {name key : String} {a b : α}
    (h : (key, b) ∈ t.insert name a) : (key = name ∧ b = a) ∨ (key, b) ∈ t := by
  induction t with
  | nil =>
      rw [Table.insert, List.mem_singleton, Prod.mk.injEq] at h
      exact .inl h
  | cons entry rest ih =>
      obtain ⟨other, c⟩ := entry
      rw [Table.insert] at h
      split at h
      · rename_i hname
        rcases List.mem_cons.1 h with heq | hrest
        · obtain ⟨rfl, rfl⟩ := Prod.mk.inj heq
          exact .inl ⟨(beq_iff_eq.1 hname).symm, rfl⟩
        · exact .inr (List.mem_cons_of_mem _ hrest)
      · rcases List.mem_cons.1 h with heq | hrest
        · exact .inr (heq ▸ List.mem_cons_self)
        · exact (ih hrest).imp id (List.mem_cons_of_mem _)

namespace Scopes

variable {scopes : Scopes}

/-! ### Changes -/

theorem Sound.add (h : scopes.Sound) {parent : ScopeId} (hparent : parent < scopes.size) :
    (scopes.add (some parent)).Sound := by
  refine ⟨fun {id s} hs => ?_, fun {id s key value} hs hmem => ?_,
    fun {id s key f} hs hmem => ?_⟩ <;>
    rcases getElem?_add_eq_some hs with ⟨rfl, rfl⟩ | hold
  · exact .inr ⟨parent, hparent, rfl⟩
  · exact h.parent hold
  · cases hmem
  · exact h.values hold hmem
  · cases hmem
  · exact h.functions hold hmem

theorem Sound.setVariable (h : scopes.Sound) (scope : ScopeId) {name : String} {value : Node}
    (hname : IsKey name) (hvalue : value.IsValue) :
    (scopes.setVariable scope name value).Sound := by
  refine ⟨fun {id s} hs => ?_, fun {id s key value} hs hmem => ?_,
    fun {id s key f} hs hmem => ?_⟩ <;>
    obtain ⟨old, hold, ⟨-, rfl⟩ | rfl⟩ := getElem?_modify_eq_some hs
  · exact h.parent (s := old) hold
  · exact h.parent hold
  · rcases Table.eq_or_mem_of_mem_insert hmem with ⟨rfl, rfl⟩ | hmem
    · exact ⟨hname.normal.symm ▸ hname, hvalue⟩
    · exact h.values hold hmem
  · exact h.values hold hmem
  · exact h.functions hold hmem
  · exact h.functions hold hmem

theorem Sound.define (h : scopes.Sound) (scope : ScopeId) {name : String}
    {parameters : List String} {body : List Node} (hname : IsKey name)
    (hparameters : ∀ p ∈ parameters, IsKey p) (hbody : ∀ s ∈ body, s.IsStatement) :
    (scopes.define scope name parameters body).Sound := by
  refine ⟨fun {id s} hs => ?_, fun {id s key value} hs hmem => ?_,
    fun {id s key f} hs hmem => ?_⟩ <;>
    obtain ⟨old, hold, ⟨hid, rfl⟩ | rfl⟩ := getElem?_modify_eq_some hs
  · exact h.parent (s := old) hold
  · exact h.parent hold
  · exact h.values hold hmem
  · exact h.values hold hmem
  · rcases Table.eq_or_mem_of_mem_insert hmem with ⟨rfl, rfl⟩ | hmem
    · subst hid
      exact ⟨hname.normal.symm ▸ hname, .defined hparameters hbody⟩
    · exact h.functions hold hmem
  · exact h.functions hold hmem

/-- One scope with the function that reads a line. -/
theorem sound_start (lines : List String) : (Machine.start lines).scopes.Sound := by
  have hscope {id : ScopeId} {s : Scope} (hs : (Machine.start lines).scopes[id]? = some s) :
      id = Machine.root ∧
        s = ⟨none, [], [(readLineName, .builtin readLineName [] (.readLine 0))]⟩ := by
    cases id with
    | zero =>
        cases hs
        exact ⟨rfl, rfl⟩
    | succ id => cases hs
  refine ⟨fun hs => ?_, fun hs hmem => ?_, fun hs hmem => ?_⟩ <;> obtain ⟨hid, rfl⟩ := hscope hs
  · exact .inl ⟨hid, rfl⟩
  · cases hmem
  · cases List.mem_singleton.1 hmem
    exact ⟨⟨by decide, by decide⟩, .readLine _ _ _⟩

/-! ### Lookups -/

theorem Sound.wellFormed (h : scopes.Sound) : scopes.WellFormed := by
  refine ⟨fun {id s parent} hs hparent => ?_, fun hs hmem => ?_⟩
  · rcases h.parent hs with ⟨-, hnone⟩ | ⟨older, hlt, hsome⟩
    · rw [hnone] at hparent
      cases hparent
    · rw [hsome] at hparent
      cases hparent
      exact hlt
  · obtain ⟨-, hsound⟩ := h.functions hs hmem
    cases hsound
    rfl

theorem Sound.isValue_of_findVariable? (h : scopes.Sound) {id : ScopeId} {name : String}
    {value : Node} (hfound : scopes.findVariable? id name = some value) : value.IsValue := by
  rw [findVariable?] at hfound
  split at hfound
  · cases hfound
  · obtain ⟨owner, s, hs, hlook⟩ := WellFormed.exists_of_searchUp _ _ hfound
    exact (h.values hs (Table.mem_of_get? hlook)).2

/-- A function that is found belongs to a scope. -/
theorem Sound.isSound_of_findFunction? (h : scopes.Sound) {id : ScopeId} {name : String}
    {f : Function} (hfound : scopes.findFunction? id name = some f) :
    ∃ own < scopes.size, f.IsSound own := by
  obtain ⟨owner, s, hs, hlook⟩ := WellFormed.exists_of_searchUp _ _ hfound
  exact ⟨owner, (Array.getElem?_eq_some_iff.1 hs).1, (h.functions hs (Table.mem_of_get? hlook)).2⟩

end Scopes

/-! ## Errors and results -/

/-- The errors that a program can run into. -/
inductive RuntimeError.IsOrdinary : RuntimeError → Prop where
  | undefinedVariable (name : String) : IsOrdinary (.undefinedVariable name)
  | undefinedFunction (name : String) : IsOrdinary (.undefinedFunction name)
  | arity (function : String) (expected given : Nat) : IsOrdinary (.arity function expected given)
  | operands (op : Operator) (left right : String) : IsOrdinary (.operands op left right)
  | inputExhausted : IsOrdinary .inputExhausted
  | tooDeep : IsOrdinary .tooDeep

/-- The statement left a value behind, or nothing. -/
def Completion.IsValue (completion : Completion) : Prop := ∀ n ∈ completion.node?, n.IsValue

/-- An operator on two values gives a value or refuses their types. -/
theorem Operator.apply_values (op : Operator) {left right : Node} (hleft : left.IsValue)
    (hright : right.IsValue) :
    (∃ v, op.apply left right = .ok v) ∨
      ∃ l r, op.apply left right = .error (.operands op l r) := by
  obtain ⟨v, rfl⟩ := hleft
  obtain ⟨w, rfl⟩ := hright
  cases hresult : op.onValues? v w with
  | some result =>
      refine .inl ⟨result, ?_⟩
      simp only [Operator.apply, hresult]
  | none =>
      refine .inr ⟨v.typeName, w.typeName, ?_⟩
      simp only [Operator.apply, hresult]
      rfl

/-! ## Steps -/

namespace Run

variable {α β : Type} {E : RuntimeError → Machine → Prop} {bound : Nat} {Q : α → Prop}
  {R : β → Prop}

/-- The result of a step is as `Q` says, or its error and the state at that moment are as `E`
    says. -/
def Ends (E : RuntimeError → Machine → Prop) (Q : α → Prop) :
    Except RuntimeError α × Machine → Prop
  | (.ok a, _) => Q a
  | (.error e, after) => E e after

/-- From sound scopes, at least `bound` of them, the step ends in sound scopes, of which there are
    no fewer, and as `E` and `Q` say. -/
def Keeps (E : RuntimeError → Machine → Prop) (bound : Nat) (Q : α → Prop) (step : Run α) : Prop :=
  ∀ m : Machine, m.scopes.Sound → bound ≤ m.scopes.size →
    (m.perform step).2.scopes.Sound ∧ m.scopes.size ≤ (m.perform step).2.scopes.size ∧
      Ends E Q (m.perform step)

theorem keeps_pure {a : α} (h : Q a) : Keeps E bound Q (pure a : Run α) :=
  fun _ hm _ => ⟨hm, Nat.le_refl _, h⟩

theorem keeps_throw {e : RuntimeError} (h : ∀ m, E e m) : Keeps E bound Q (throw e : Run α) :=
  fun m hm _ => ⟨hm, Nat.le_refl _, h m⟩

theorem keeps_bind {p : Run α} {f : α → Run β} (hp : Keeps E bound Q p)
    (hf : ∀ a, Q a → Keeps E bound R (f a)) : Keeps E bound R (p >>= f) := by
  intro m hm hbound
  obtain ⟨hsound, hsize, hends⟩ := hp m hm hbound
  rw [Machine.perform_bind]
  rcases hstep : m.perform p with ⟨r, after⟩
  rw [hstep] at hsound hsize hends
  cases r with
  | error e => exact ⟨hsound, hsize, hends⟩
  | ok a =>
      obtain ⟨hsound', hsize', hends'⟩ := hf a hends after hsound (Nat.le_trans hbound hsize)
      exact ⟨hsound', Nat.le_trans hsize hsize', hends'⟩

/-- What is done with the state may depend on the scopes that there are. -/
theorem keeps_get_bind {f : Machine → Run β}
    (hf : ∀ m : Machine, m.scopes.Sound → bound ≤ m.scopes.size →
      Keeps E m.scopes.size R (f m)) : Keeps E bound R (get >>= f) := by
  intro m hm hbound
  rw [Machine.perform_get_bind]
  exact hf m hm hbound m hm (Nat.le_refl _)

theorem Keeps.mono {p : Run α} {bound' : Nat} {Q' : α → Prop} (h : Keeps E bound Q p)
    (hbound : bound ≤ bound') (hQ : ∀ a, Q a → Q' a) : Keeps E bound' Q' p := by
  intro m hm hsize
  obtain ⟨hsound, hle, hends⟩ := h m hm (Nat.le_trans hbound hsize)
  refine ⟨hsound, hle, ?_⟩
  rcases hstep : m.perform p with ⟨r, after⟩
  rw [hstep] at hends
  cases r with
  | error e => exact hends
  | ok a => exact hQ a hends

theorem keeps_record (event : Event) : Keeps E bound (fun _ => True) (record event) :=
  fun _ hm _ => ⟨hm, Nat.le_refl _, trivial⟩

theorem keeps_trace (traced : Bool) (line : String) :
    Keeps E bound (fun _ => True) (trace traced line) := by
  cases traced
  · exact keeps_pure trivial
  · exact keeps_record _

theorem keeps_ofExcept {r : Except RuntimeError α} (hok : ∀ a, r = .ok a → Q a)
    (herror : ∀ e m, r = .error e → E e m) : Keeps E bound Q (ofExcept r) := by
  cases r with
  | ok a => exact keeps_pure (hok a rfl)
  | error e => exact keeps_throw fun m => herror e m rfl

theorem keeps_setVariable (scope : ScopeId) {name : String} {value : Node} (hname : IsKey name)
    (hvalue : value.IsValue) :
    Keeps E bound (fun _ => True)
      (updateScopes fun scopes => scopes.setVariable scope name value) :=
  fun _ hm _ => ⟨hm.setVariable scope hname hvalue, Nat.le_of_eq Array.size_modify.symm, trivial⟩

theorem keeps_define (scope : ScopeId) {name : String} {parameters : List String}
    {body : List Node} (hname : IsKey name) (hparameters : ∀ p ∈ parameters, IsKey p)
    (hbody : ∀ s ∈ body, s.IsStatement) :
    Keeps E bound (fun _ => True)
      (updateScopes fun scopes => scopes.define scope name parameters body) :=
  fun _ hm _ => ⟨hm.define scope hname hparameters hbody, Nat.le_of_eq Array.size_modify.symm,
    trivial⟩

end Run

/-! ## The rules -/

namespace Evaluator

open Run

variable {E : RuntimeError → Machine → Prop} {bound : Nat} {scope : ScopeId}

/-- The evaluator keeps the scopes sound, as long as it is given nodes that were read and a scope
    that there is. -/
structure Keeps (E : RuntimeError → Machine → Prop) (e : Evaluator) : Prop where
  expression : ∀ {scope : ScopeId} {node : Node}, node.IsExpression .logical →
    Run.Keeps E (scope + 1) Node.IsValue (e.expression scope node)
  statement : ∀ {scope : ScopeId} {node : Node}, node.IsStatement →
    Run.Keeps E (scope + 1) Completion.IsValue (e.statement scope node)

theorem keeps_bindParameters (scope : ScopeId) {names : List String} {values : List Node}
    (hnames : ∀ name ∈ names, IsKey name) (hvalues : ∀ value ∈ values, value.IsValue) :
    Run.Keeps E bound (fun _ => True) (Evaluator.bind scope names values) := by
  induction names generalizing values with
  | nil => exact keeps_pure trivial
  | cons name names ih =>
      obtain ⟨hname, hnames⟩ := List.forall_mem_cons.1 hnames
      cases values with
      | nil => exact keeps_pure trivial
      | cons value values =>
          obtain ⟨hvalue, hvalues⟩ := List.forall_mem_cons.1 hvalues
          exact keeps_bind (keeps_setVariable scope hname hvalue) fun _ _ => ih hnames hvalues

theorem keeps_print {values : List Node} (hvalues : ∀ value ∈ values, value.IsValue) :
    Run.Keeps E bound (fun _ => True) (print values) := by
  induction values with
  | nil => exact keeps_pure trivial
  | cons n rest ih =>
      obtain ⟨⟨v, rfl⟩, hrest⟩ := List.forall_mem_cons.1 hvalues
      refine keeps_bind (Q := fun _ => True) (keeps_pure trivial) fun value _ => ?_
      exact keeps_bind (keeps_record _) fun _ _ => ih hrest

theorem keeps_readLine (hE : ∀ error m, RuntimeError.IsOrdinary error → E error m) (input : Nat) :
    Run.Keeps E bound Node.IsValue (readLine input) := by
  refine keeps_get_bind fun m _ _ => ?_
  split
  · rename_i line rest _
    refine keeps_bind (Q := fun _ => True) (fun m hm _ => ⟨hm, Nat.le_refl _, trivial⟩)
      fun _ _ => ?_
    exact keeps_pure ⟨.string line, rfl⟩
  · exact keeps_throw fun m => hE _ m .inputExhausted

section Rules

variable {e : Evaluator} (he : e.Keeps E)

include he

theorem keeps_expressions {nodes : List Node} (hnodes : ∀ n ∈ nodes, n.IsExpression .logical) :
    Run.Keeps E (scope + 1) (fun values => ∀ v ∈ values, v.IsValue)
      (e.expressions scope nodes) := by
  induction nodes with
  | nil => exact keeps_pure (List.forall_mem_nil _)
  | cons n rest ih =>
      obtain ⟨hn, hrest⟩ := List.forall_mem_cons.1 hnodes
      refine keeps_bind (he.expression hn) fun value hvalue => ?_
      refine keeps_bind (ih hrest) fun values hvalues => keeps_pure ?_
      exact List.forall_mem_cons.2 ⟨hvalue, hvalues⟩

theorem keeps_block {statements : List Node} (hstatements : ∀ s ∈ statements, s.IsStatement) :
    Run.Keeps E (scope + 1) Completion.IsValue (e.block scope statements) := by
  suffices h : ∀ last : Completion, last.IsValue →
      Run.Keeps E (scope + 1) Completion.IsValue (e.blockFrom scope last statements) from
    h .nothing (fun _ hn => absurd hn (Option.not_mem_none _))
  induction statements with
  | nil => exact fun last hlast => keeps_pure hlast
  | cons s rest ih =>
      obtain ⟨hs, hrest⟩ := List.forall_mem_cons.1 hstatements
      intro last _
      refine keeps_bind (he.statement hs) fun completion hcompletion => ?_
      split
      · exact keeps_pure hcompletion
      · exact ih hrest completion hcompletion

/-- The body of a function runs in a scope of its own. -/
theorem keeps_runBody {parameters : List String} {values body : List Node}
    (hparameters : ∀ p ∈ parameters, IsKey p) (hvalues : ∀ v ∈ values, v.IsValue)
    (hbody : ∀ s ∈ body, s.IsStatement) (own : ScopeId) :
    Run.Keeps E (own + 1) Node.IsValue (e.runBody own parameters values body) := by
  refine keeps_bind (keeps_bindParameters own hparameters hvalues) fun _ _ => ?_
  refine keeps_bind (keeps_block he hbody) fun completion hcompletion => ?_
  split
  · rename_i n
    exact keeps_pure (hcompletion n rfl)
  · exact keeps_pure ⟨.null, rfl⟩

theorem keeps_choose {otherwise : Option (List Node)} {branches : List (Branch Node)}
    (hconditions : ∀ b ∈ branches, b.condition.IsExpression .logical)
    (hbodies : ∀ b ∈ branches, ∀ s ∈ b.body, s.IsStatement)
    (hotherwise : ∀ body ∈ otherwise, ∀ s ∈ body, s.IsStatement) :
    Run.Keeps E (scope + 1) Completion.IsValue (e.choose scope otherwise branches) := by
  induction branches with
  | nil =>
      cases otherwise with
      | none => exact keeps_pure fun _ hn => absurd hn (Option.not_mem_none _)
      | some body => exact keeps_block he (hotherwise body rfl)
  | cons branch others ih =>
      obtain ⟨hcondition, hconditions⟩ := List.forall_mem_cons.1 hconditions
      obtain ⟨hbody, hbodies⟩ := List.forall_mem_cons.1 hbodies
      refine keeps_bind (he.expression hcondition) fun value _ => ?_
      split
      · exact keeps_block he hbody
      · exact ih hconditions hbodies

theorem keeps_execute (traced : Bool) {node : Node} (hnode : node.IsStatement) :
    Run.Keeps E (scope + 1) Completion.IsValue (execute traced e scope node) := by
  have hnothing : Completion.nothing.IsValue := fun _ hn => absurd hn (Option.not_mem_none _)
  have hvalue {n : Node} (hn : n.IsValue) : ∀ n' ∈ some n, n'.IsValue :=
    fun n' hn' => Option.mem_some.1 hn' ▸ hn
  refine keeps_bind (keeps_trace traced _) fun _ _ => ?_
  cases hnode with
  | evaluation h => exact keeps_bind (he.expression h) fun n hn => keeps_pure (hvalue hn)
  | definition hname h =>
      refine keeps_bind (he.expression h) fun n hn => ?_
      exact keeps_bind (keeps_setVariable scope hname hn) fun _ _ => keeps_pure hnothing
  | function hname hparameters hbody =>
      exact keeps_bind (keeps_define scope hname hparameters hbody) fun _ _ =>
        keeps_pure hnothing
  | giveBack h => exact keeps_bind (he.expression h) fun n hn => keeps_pure (hvalue hn)
  | print h =>
      refine keeps_bind (keeps_expressions he h) fun values hvalues => ?_
      exact keeps_bind (keeps_print hvalues) fun _ _ => keeps_pure hnothing
  | conditional hconditions hbodies hotherwise =>
      exact keeps_choose he hconditions hbodies hotherwise

variable (hE : ∀ error m, RuntimeError.IsOrdinary error → E error m)

include hE

theorem keeps_apply {function : Function} {values : List Node} {own : ScopeId}
    (hfunction : function.IsSound own) (hvalues : ∀ v ∈ values, v.IsValue) :
    Run.Keeps E (own + 1) Node.IsValue (e.apply function values) := by
  cases hfunction with
  | readLine name parameters input => exact keeps_readLine hE input
  | @defined name parameters body hparameters hbody =>
      intro m hm hbound
      have hadd := hm.add hbound
      have hsize : (m.scopes.add (some own)).size = m.scopes.size + 1 := Array.size_push _
      obtain ⟨hsound, hle, hends⟩ := keeps_runBody he hparameters hvalues hbody m.scopes.size
        { m with scopes := m.scopes.add (some own) } hadd (Nat.le_of_eq hsize.symm)
      rw [perform_apply_defined]
      refine ⟨hsound, Nat.le_trans ?_ hle, hends⟩
      exact Nat.le_of_lt (hsize ▸ Nat.lt_succ_self _)

theorem keeps_call (traced : Bool) (name : String) {arguments : List Node}
    (harguments : ∀ a ∈ arguments, a.IsExpression .logical) :
    Run.Keeps E (scope + 1) Node.IsValue (e.call traced scope name arguments) := by
  refine keeps_get_bind fun m hm hscope => ?_
  split
  · exact keeps_throw fun m => hE _ m (.undefinedFunction name)
  · rename_i function hfound
    obtain ⟨own, hown, hfunction⟩ := hm.isSound_of_findFunction? hfound
    simp only
    split
    · exact fun m hm _ => ⟨hm, Nat.le_refl _, hE _ m (.arity _ _ _)⟩
    · refine keeps_bind ((keeps_expressions he harguments).mono hscope fun _ h => h)
        fun values hvalues => ?_
      refine keeps_bind (keeps_trace traced _) fun _ _ => ?_
      exact (keeps_apply he hE hfunction hvalues).mono hown fun _ h => h

theorem keeps_evaluate (traced : Bool) {node : Node} (hnode : node.IsExpression .logical) :
    Run.Keeps E (scope + 1) Node.IsValue (evaluate traced e scope node) := by
  refine keeps_bind (keeps_trace traced _) fun _ _ => ?_
  cases hnode with
  | literal _ v => exact keeps_pure ⟨v, rfl⟩
  | @reference _ name _ hname =>
      refine keeps_get_bind fun m hm _ => ?_
      split
      · rename_i value hfound
        exact keeps_pure (hm.isValue_of_findVariable? hfound)
      · exact keeps_throw fun m => hE _ m (.undefinedVariable name)
  | call _ _ harguments => exact keeps_call he hE traced _ harguments
  | @operation _ op left right _ hleft hright =>
      refine keeps_bind (he.expression (hleft.looser (Nat.zero_le _))) fun l hl => ?_
      refine keeps_bind (he.expression (hright.looser (Nat.zero_le _))) fun r hr => ?_
      refine keeps_bind (Q := fun _ => True) (keeps_ofExcept (fun _ _ => trivial) ?_)
        fun v _ => keeps_pure ⟨v, rfl⟩
      -- on two values an operator can only fail by refusing them
      intro error m herror
      rcases op.apply_values hl hr with ⟨v, hok⟩ | ⟨lname, rname, hrefused⟩
      · rw [hok] at herror
        cases herror
      · rw [hrefused] at herror
        cases herror
        exact hE _ m (.operands op lname rname)

end Rules

/-- The statements of a program, one after the other. -/
theorem keeps_statements {e : Evaluator} (he : e.Keeps E) {program : List Node}
    (hprogram : ∀ s ∈ program, s.IsStatement) :
    ∀ last : Option Node, (∀ n ∈ last, n.IsValue) →
      Run.Keeps E (scope + 1) (fun value => ∀ n ∈ value, n.IsValue)
        (e.statements scope last program) := by
  induction program with
  | nil => exact fun last hlast => keeps_pure hlast
  | cons s rest ih =>
      obtain ⟨hs, hrest⟩ := List.forall_mem_cons.1 hprogram
      intro last _
      exact keeps_bind (he.statement hs) fun completion hcompletion =>
        ih hrest completion.node? hcompletion

end Evaluator

end Klartext
