import Klartext.Proofs.Evaluation.LexicalScope
import Klartext.Proofs.Evaluation.Sound
import Klartext.Proofs.Grammar.Program

set_option autoImplicit false

/-! # Watching a run

What holds in the end of every run holds in the middle of each run too, if runs can be stopped
anywhere. `Evaluator.watched` is the evaluator whose runs an observer may stop wherever the
evaluation of an expression or the execution of a statement begins or ends; an observer who never
does so sees the evaluator itself. So what holds of every watched run in the end holds in all of
these states. -/

namespace Klartext

/-! ## Stopping -/

/-- With this error an observer stops a run. No rule of the evaluator raises it. -/
def RuntimeError.interrupted : RuntimeError := .notRepresentable ""

namespace Run

variable {α : Type} {E : RuntimeError → Machine → Prop} {bound : Nat} {Q : α → Prop}

/-- Stops the run in the states that the observer picks. -/
def halt (stop : Machine → Bool) : Run Unit := do
  if stop (← get) then throw .interrupted

/-- A step with the observer looking on before and behind it. -/
def watch (stop : Machine → Bool) (step : Run α) : Run α := do
  halt stop
  let a ← step
  halt stop
  return a

theorem watch_never (step : Run α) : watch (fun _ => false) step = step := by
  have hhalt : halt (fun _ => false) = pure () := rfl
  simp only [watch, hhalt, pure_bind, bind_pure]

theorem keeps_halt {stop : Machine → Bool}
    (hstop : ∀ m, m.scopes.Sound → bound ≤ m.scopes.size → stop m = true → E .interrupted m) :
    Keeps E bound (fun _ => True) (halt stop) := by
  intro m hm hbound
  rw [halt, Machine.perform_get_bind]
  by_cases h : stop m = true
  · rw [if_pos h]
    exact ⟨hm, Nat.le_refl _, hstop m hm hbound h⟩
  · rw [if_neg h]
    exact ⟨hm, Nat.le_refl _, trivial⟩

theorem keeps_watch {stop : Machine → Bool} {step : Run α}
    (hstop : ∀ m, m.scopes.Sound → bound ≤ m.scopes.size → stop m = true → E .interrupted m)
    (h : Keeps E bound Q step) : Keeps E bound Q (watch stop step) := by
  refine keeps_bind (keeps_halt hstop) fun _ _ => keeps_bind h fun a ha => ?_
  exact keeps_bind (keeps_halt hstop) fun _ _ => keeps_pure ha

end Run

namespace Evaluator

/-- The evaluator with an observer, who may stop a run in the states that `stop` picks, wherever
    something is evaluated or executed in a scope. -/
def watched (stop : ScopeId → Node → Machine → Bool) (traced : Bool) : (limit : Nat) → Evaluator
  | 0 => exhausted
  | limit + 1 =>
    let nested := watched stop traced limit
    { expression := fun scope node =>
        Run.watch (stop scope node) (evaluate traced nested scope node)
      statement := fun scope node =>
        Run.watch (stop scope node) (execute traced nested scope node) }

/-- An observer who never stops a run does not change it. -/
theorem watched_never (traced : Bool) (limit : Nat) :
    watched (fun _ _ _ => false) traced limit = within traced limit := by
  induction limit with
  | zero => rfl
  | succ limit ih => simp only [watched, within, Run.watch_never, ih]

theorem keeps_watched {E : RuntimeError → Machine → Prop}
    (hE : ∀ error m, RuntimeError.IsOrdinary error → E error m)
    {stop : ScopeId → Node → Machine → Bool}
    (hstop : ∀ scope node m, m.scopes.Sound → scope < m.scopes.size → node.IsProper →
      stop scope node m = true → E .interrupted m) (traced : Bool) (limit : Nat) :
    (watched stop traced limit).Keeps E := by
  induction limit with
  | zero =>
      exact ⟨fun _ => Run.keeps_throw fun m => hE _ m .tooDeep,
        fun _ => Run.keeps_throw fun m => hE _ m .tooDeep⟩
  | succ limit ih =>
      refine ⟨fun {scope node} hnode => ?_, fun {scope node} hnode => ?_⟩
      · exact Run.keeps_watch (fun m hm hscope => hstop scope node m hm hscope (.inl hnode))
          (keeps_evaluate ih hE traced hnode)
      · exact Run.keeps_watch (fun m hm hscope => hstop scope node m hm hscope (.inr hnode))
          (keeps_execute ih traced hnode)

theorem keeps_within (traced : Bool) (limit : Nat) :
    (within traced limit).Keeps fun error _ => error.IsOrdinary := by
  -- nobody stops this run, so that being stopped needs no place among the errors
  rw [← watched_never]
  exact keeps_watched (fun _ _ h => h) (fun _ _ _ _ _ _ h => Bool.noConfusion h) traced limit

end Evaluator

/-! ## Lookups come to an end -/

namespace Scopes

variable {scopes : Scopes}

theorem OnChain.trans {a b c : ScopeId} (hab : scopes.OnChain a b) (hbc : scopes.OnChain b c) :
    scopes.OnChain a c := by
  induction hbc with
  | self => exact hab
  | parent _ hs hparent ih => exact ih.parent hs hparent

/-- From every scope the way outwards leads to the first one. -/
theorem Sound.onChain_root (h : scopes.Sound) {id : ScopeId} (hid : id < scopes.size) :
    scopes.OnChain id Machine.root := by
  induction id using Nat.strongRecOn with
  | ind id ih =>
      have hs : scopes[id]? = some scopes[id] := Array.getElem?_eq_getElem hid
      rcases h.parent hs with ⟨rfl, -⟩ | ⟨parent, hlt, hparent⟩
      · exact .self
      · have hstep : scopes.OnChain id parent := .parent .self hs hparent
        exact hstep.trans (ih parent hlt (Nat.lt_trans hlt hid))

/-- A search goes as far as there are scopes, and no bound on it cuts it short. -/
theorem WellFormed.searchUp_eq_search {α : Type} (h : scopes.WellFormed)
    (look : Scope → Option α) {bound : Nat} {id : ScopeId} (hbound : id < bound) :
    scopes.searchUp look bound id = scopes.search look id := by
  induction id using Nat.strongRecOn generalizing bound with
  | ind id ih =>
      obtain ⟨bound, rfl⟩ := Nat.exists_eq_add_of_lt hbound
      rw [search, searchUp, searchUp]
      split
      · rfl
      · rename_i s hs
        split
        · rfl
        · split
          · rename_i parent hparent
            have hlt := h.parent_lt hs hparent
            rw [ih parent hlt (Nat.lt_of_lt_of_le hlt (Nat.le_add_right id bound)),
              ih parent hlt hlt]
          · rfl

end Scopes

/-! ## Every state -/

/-- What holds in every state of a run. -/
structure Machine.Orderly (m : Machine) : Prop where
  sound : m.scopes.Sound
  /-- From every scope the way outwards leads to the first one. -/
  outwards : ∀ id < m.scopes.size, m.scopes.OnChain id root
  /-- No lookup is cut short. -/
  lookup : ∀ {α : Type} (look : Scope → Option α) (id bound : Nat), id < bound →
    m.scopes.searchUp look bound id = m.scopes.search look id
  /-- The scopes stay sound while a call binds parameters in a scope of its own. -/
  binding : ∀ closure < m.scopes.size, ∀ parameters values, (∀ p ∈ parameters, IsKey p) →
    (∀ v ∈ values, Node.IsValue v) →
    (Machine.perform { m with scopes := m.scopes.add (some closure) }
      (Evaluator.bind m.scopes.size parameters values)).2.scopes.Sound

theorem Scopes.Sound.orderly {m : Machine} (h : m.scopes.Sound) : m.Orderly where
  sound := h
  outwards _ hid := h.onChain_root hid
  lookup look _ _ hbound := h.wellFormed.searchUp_eq_search look hbound
  binding closure hclosure parameters values hparameters hvalues := by
    have hbind : Run.Keeps (fun _ _ => True) 0 (fun _ => True)
        (Evaluator.bind m.scopes.size parameters values) :=
      Evaluator.keeps_bindParameters m.scopes.size hparameters hvalues
    exact (hbind _ (h.add hclosure) (Nat.zero_le _)).1

namespace Evaluator

/-- How a watched run may fail: with an error that programs can run into, or stopped by the
    observer, at a node that was read and in a scope that there is. If that node is an expression,
    its evaluation gives a value or such an error. -/
def MayFail (stop : ScopeId → Node → Machine → Bool) (error : RuntimeError) (m : Machine) : Prop :=
  error.IsOrdinary ∨ error = .interrupted ∧ ∃ scope node,
    stop scope node m = true ∧ scope < m.scopes.size ∧ node.IsProper ∧
    (node.IsExpression .logical → ∀ traced limit,
      Run.Ends (fun error _ => error.IsOrdinary) Node.IsValue
        (m.perform ((within traced limit).expression scope node)))

/-- Where statements that were read are run, a watched run ends in an orderly state. -/
theorem watched_orderly {program : List Node} (hprogram : ∀ s ∈ program, s.IsStatement)
    (lines : List String) (traced : Bool) (limit : Nat) (stop : ScopeId → Node → Machine → Bool) :
    let ended := (Machine.start lines).perform
      ((watched stop traced limit).statements Machine.root none program)
    ended.2.Orderly ∧ Run.Ends (MayFail stop) (fun value => ∀ n ∈ value, n.IsValue) ended := by
  have hstop : ∀ scope node m, m.scopes.Sound → scope < m.scopes.size → node.IsProper →
      stop scope node m = true → MayFail stop .interrupted m := by
    intro scope node m hm hscope hnode hstop
    refine .inr ⟨rfl, scope, node, hstop, hscope, hnode, fun hexpression traced limit => ?_⟩
    exact ((keeps_within traced limit).expression hexpression m hm hscope).2.2
  have hwatched := keeps_watched (fun _ _ h => .inl h) hstop traced limit
  have hnone : ∀ n ∈ none, Node.IsValue n := fun _ hn => absurd hn (Option.not_mem_none _)
  have hrun : Run.Keeps (MayFail stop) (Machine.root + 1) (fun value => ∀ n ∈ value, n.IsValue)
      ((watched stop traced limit).statements Machine.root none program) :=
    keeps_statements hwatched hprogram none hnone
  obtain ⟨hsound, -, hends⟩ := hrun (Machine.start lines) (Scopes.sound_start lines) (Nat.le_refl 1)
  exact ⟨hsound.orderly, hends⟩

/-- The states of a program that was read are orderly, wherever the run is stopped, and the run ends
    with a value or nothing, or with an error that programs can run into. -/
theorem run_orderly {depth : Nat} {text rest : Text} {program : List Node}
    (hread : Grammar.program depth text = .found program rest) (lines : List String)
    (traced : Bool) (limit : Nat) :
    (∀ stop,
      let ended := (Machine.start lines).perform
        ((watched stop traced limit).statements Machine.root none program)
      ended.2.Orderly ∧
        Run.Ends (MayFail stop) (fun value => ∀ n ∈ value, n.IsValue) ended) ∧
    ((Machine.start lines).interpret traced limit program).2.Orderly ∧
    ((∃ value, ((Machine.start lines).interpret traced limit program).1 = .finished value ∧
        ∀ n ∈ value, n.IsValue) ∨
      ∃ error, ((Machine.start lines).interpret traced limit program).1 = .stopped error ∧
        error.IsOrdinary) := by
  have hprogram := Grammar.isStatement_of_program hread
  refine ⟨watched_orderly hprogram lines traced limit, ?_⟩
  -- the run itself is the one in which the observer never stops it
  obtain ⟨horderly, hends⟩ := watched_orderly hprogram lines traced limit fun _ _ _ => false
  rw [watched_never] at horderly hends
  rw [Machine.interpret]
  split
  · rename_i value after heq
    rw [heq] at horderly hends
    exact ⟨horderly, .inl ⟨value, rfl, hends⟩⟩
  · rename_i error after heq
    rw [heq] at horderly hends
    refine ⟨horderly, .inr ⟨error, rfl, ?_⟩⟩
    rcases hends with hordinary | ⟨-, _, _, hnever, -⟩
    · exact hordinary
    · cases hnever

theorem run_orderly_choice :
    let program := Surface.Statement.program [.choice]
    Grammar.program Grammar.depthLimit program = .found [Surface.Statement.choice.node] [] ∧
    let ended := (Machine.start []).interpret false depthLimit [Surface.Statement.choice.node]
    ended.2.Orderly ∧
      ((∃ value, ended.1 = .finished value ∧ ∀ n ∈ value, n.IsValue) ∨
        ∃ error, ended.1 = .stopped error ∧ error.IsOrdinary) := by
  have hread : Grammar.program Grammar.depthLimit (Surface.Statement.program [.choice]) =
      .found [Surface.Statement.choice.node] [] := by
    have hfirst := Surface.Statement.readsBack .choice Grammar.depthLimit (by decide)
      (Surface.Statement.block [])
    have hlength : (Surface.Statement.block []).length <
        (Surface.Statement.choice.form ++ '!' :: Surface.Statement.block []).length := by
      rw [List.length_append]
      exact Nat.lt_add_left _ (Nat.lt_succ_self _)
    rw [Surface.Statement.program_cons, Grammar.program, Reader.many]
    exact Surface.Statement.upTo_cons hfirst hlength (Reader.upTo_of_missed rfl _)
  exact ⟨hread, (run_orderly hread [] false depthLimit).2⟩

end Evaluator

end Klartext
