import Mathlib.Data.List.Defs
import Klartext.Proofs.Evaluation.Reachable

set_option autoImplicit false

/-! # Lexical scope

What a function does depends on the scope in which it was defined and on those around it, and on
nothing else: not on the caller, and not on how many scopes there are.

Two runs of a function make their own scopes, which have different numbers. So they are compared up
to a pairing `ρ` of the scopes of one state with those of the other: paired scopes hold the same
values, functions that close over paired scopes, and lie in paired scopes (`Scopes.Alike`). Every
step keeps the states alike, records the same events and gives the same result (`Run.Alike`), where
the pairing grows by the scopes that calls make. -/

namespace Klartext

/-! ## Scopes that are alike -/

/-- Which scopes of one state correspond to which scopes of another. -/
abbrev Pairing : Type := ScopeId → ScopeId → Prop

/-- The pairing with one more pair. -/
def Pairing.insert (ρ : Pairing) (i j : ScopeId) : Pairing :=
  fun i' j' => ρ i' j' ∨ (i' = i ∧ j' = j)

/-- The same function, closed over paired scopes. -/
inductive Function.Alike (ρ : Pairing) : Function → Function → Prop where
  | builtin (name : String) (parameters : List String) (action : Builtin) :
    Alike ρ (.builtin name parameters action) (.builtin name parameters action)
  | defined (name : String) (parameters : List String) (body : List Node) {i j : ScopeId} :
    ρ i j → Alike ρ (.defined name parameters body i) (.defined name parameters body j)

/-- The same table of functions, closed over paired scopes. -/
def Table.Alike (ρ : Pairing) (t u : Table Function) : Prop :=
  List.Forall₂ (fun f g => f.1 = g.1 ∧ f.2.Alike ρ g.2) t u

/-- The same scope, up to the numbers of scopes. -/
structure Scope.Alike (ρ : Pairing) (s t : Scope) : Prop where
  values : s.values = t.values
  functions : s.functions.Alike ρ t.functions
  parent : s.parent.Rel ρ t.parent

/-- Paired scopes are the same up to the numbers of scopes, and no scope is paired twice. -/
structure Scopes.Alike (ρ : Pairing) (a b : Scopes) : Prop where
  older_left : a.WellFormed
  older_right : b.WellFormed
  unique_left : ∀ {i j j'}, ρ i j → ρ i j' → j = j'
  unique_right : ∀ {i i' j}, ρ i j → ρ i' j → i = i'
  paired : ∀ {i j}, ρ i j → ∃ s t, a[i]? = some s ∧ b[j]? = some t ∧ s.Alike ρ t

variable {ρ ρ' : Pairing}

theorem Function.Alike.mono {f g : Function} (hρ : ∀ i j, ρ i j → ρ' i j) (h : f.Alike ρ g) :
    f.Alike ρ' g := by
  cases h with
  | builtin name parameters action => exact .builtin name parameters action
  | defined name parameters body hij => exact .defined name parameters body (hρ _ _ hij)

theorem Function.Alike.parameters_eq {f g : Function} (h : f.Alike ρ g) :
    f.parameters = g.parameters := by
  cases h <;> rfl

theorem Function.Alike.name_eq {f g : Function} (h : f.Alike ρ g) : f.name = g.name := by
  cases h <;> rfl

namespace Table.Alike

variable {t u : Table Function}

theorem mono (hρ : ∀ i j, ρ i j → ρ' i j) (h : t.Alike ρ u) : t.Alike ρ' u := by
  induction h with
  | nil => exact .nil
  | cons hfg _ ih => exact .cons ⟨hfg.1, hfg.2.mono hρ⟩ ih

theorem insert (h : t.Alike ρ u) (name : String) {f g : Function} (hfg : f.Alike ρ g) :
    (t.insert name f).Alike ρ (u.insert name g) := by
  induction h with
  | nil => exact .cons ⟨rfl, hfg⟩ .nil
  | @cons first second t u hhead htail ih =>
      obtain ⟨key, f'⟩ := first
      obtain ⟨key', g'⟩ := second
      obtain ⟨hkey, hvalue⟩ := hhead
      simp only at hkey
      subst hkey
      simp only [Table.insert]
      split
      · exact .cons ⟨rfl, hfg⟩ htail
      · exact .cons ⟨rfl, hvalue⟩ ih

theorem get? (h : t.Alike ρ u) (name : String) :
    (t.get? name).Rel (Function.Alike ρ) (u.get? name) := by
  induction h with
  | nil => exact .none
  | @cons first second t u hhead htail ih =>
      obtain ⟨key, f'⟩ := first
      obtain ⟨key', g'⟩ := second
      obtain ⟨hkey, hvalue⟩ := hhead
      simp only at hkey
      subst hkey
      simp only [Table.get?, List.lookup_cons] at ih ⊢
      split
      · exact .some hvalue
      · exact ih

end Table.Alike

theorem Scope.Alike.mono {s t : Scope} (hρ : ∀ i j, ρ i j → ρ' i j) (h : s.Alike ρ t) :
    s.Alike ρ' t := by
  refine ⟨h.values, h.functions.mono hρ, ?_⟩
  rcases s with ⟨p, v, f⟩
  rcases t with ⟨q, w, g⟩
  cases h.parent with
  | none => exact .none
  | some hpq => exact .some (hρ _ _ hpq)

namespace Scopes.Alike

variable {a b : Scopes} {i j : ScopeId}

theorem lt_size (h : Scopes.Alike ρ a b) (hij : ρ i j) : i < a.size ∧ j < b.size := by
  obtain ⟨s, t, hs, ht, -⟩ := h.paired hij
  exact ⟨(Array.getElem?_eq_some_iff.1 hs).1, (Array.getElem?_eq_some_iff.1 ht).1⟩

/-- Searching from paired scopes finds the same. The bounds, which hang on the numbers of the
    scopes, are never reached. -/
theorem searchUp {α β : Type} {R : α → β → Prop} {look : Scope → Option α}
    {look' : Scope → Option β} (h : Scopes.Alike ρ a b)
    (hlook : ∀ {s t : Scope}, s.Alike ρ t → (look s).Rel R (look' t)) :
    ∀ (n k : Nat) (i j : ScopeId), ρ i j → i < n → j < k →
      (a.searchUp look n i).Rel R (b.searchUp look' k j) := by
  intro n
  induction n with
  | zero => intro k i j _ hi; exact absurd hi (Nat.not_lt_zero i)
  | succ n ih =>
      intro k i j hij hi hj
      cases k with
      | zero => exact absurd hj (Nat.not_lt_zero j)
      | succ k =>
          obtain ⟨s, t, hs, ht, hst⟩ := h.paired hij
          simp only [Scopes.searchUp, hs, ht]
          have hfound := hlook hst
          revert hfound
          generalize look s = x
          generalize look' t = y
          rintro (⟨hxy⟩ | _)
          · exact .some hxy
          · -- neither scope has it, and the search goes on in the scopes around both
            have hparent := hst.parent
            revert hparent
            rcases hp : s.parent with _ | p <;> rcases hq : t.parent with _ | q <;> intro hparent
            · exact .none
            · cases hparent
            · cases hparent
            · cases hparent with
              | some hpq =>
                  have hp' := h.older_left.parent_lt hs hp
                  have hq' := h.older_right.parent_lt ht hq
                  exact ih k p q hpq (Nat.lt_of_lt_of_le hp' (Nat.le_of_lt_succ hi))
                    (Nat.lt_of_lt_of_le hq' (Nat.le_of_lt_succ hj))

theorem findFunction? (h : Scopes.Alike ρ a b) (hij : ρ i j) (name : String) :
    (a.findFunction? i name).Rel (Function.Alike ρ) (b.findFunction? j name) :=
  h.searchUp (fun hst => hst.functions.get? _) _ _ i j hij (Nat.lt_succ_self i)
    (Nat.lt_succ_self j)

theorem findVariable? (h : Scopes.Alike ρ a b) (hij : ρ i j) (name : String) :
    a.findVariable? i name = b.findVariable? j name := by
  have hsearch : (a.search (fun s => s.values.get? (normalizeName name)) i).Rel Eq
      (b.search (fun s => s.values.get? (normalizeName name)) j) := by
    refine h.searchUp ?_ _ _ i j hij (Nat.lt_succ_self i) (Nat.lt_succ_self j)
    intro s t hst
    rw [hst.values]
    cases t.values.get? (normalizeName name) with
    | none => exact .none
    | some v => exact .some rfl
  have heq : a.search (fun s => s.values.get? (normalizeName name)) i =
      b.search (fun s => s.values.get? (normalizeName name)) j := by
    revert hsearch
    generalize a.search (fun s => s.values.get? (normalizeName name)) i = x
    generalize b.search (fun s => s.values.get? (normalizeName name)) j = y
    rintro (⟨rfl⟩ | _) <;> rfl
  rw [Scopes.findVariable?, Scopes.findVariable?, heq]

/-- Paired scopes may be changed alike. -/
theorem modify (h : Scopes.Alike ρ a b) (hij : ρ i j) {f g : Scope → Scope}
    (hf : Scopes.WellFormed (Array.modify a i f)) (hg : Scopes.WellFormed (Array.modify b j g))
    (hfg : ∀ {s t : Scope}, s.Alike ρ t → (f s).Alike ρ (g t)) :
    Scopes.Alike ρ (Array.modify a i f) (Array.modify b j g) := by
  refine ⟨hf, hg, h.unique_left, h.unique_right, ?_⟩
  intro i' j' hij'
  obtain ⟨s, t, hs, ht, hst⟩ := h.paired hij'
  rw [Array.getElem?_modify, Array.getElem?_modify, hs, ht]
  by_cases hi : i = i'
  · subst hi
    have hj := h.unique_left hij hij'
    exact ⟨f s, g t, by simp, by simp [hj], hfg hst⟩
  · have hj : j ≠ j' := by
      rintro rfl
      exact hi (h.unique_right hij hij')
    exact ⟨s, t, by simp [hi], by simp [hj], hst⟩

theorem setVariable (h : Scopes.Alike ρ a b) (hij : ρ i j) (name : String) (value : Node) :
    Scopes.Alike ρ (a.setVariable i name value) (b.setVariable j name value) := by
  refine h.modify hij (h.older_left.setVariable i name value)
    (h.older_right.setVariable j name value) ?_
  intro s t hst
  exact ⟨by rw [hst.values], hst.functions, hst.parent⟩

theorem define (h : Scopes.Alike ρ a b) (hij : ρ i j) (name : String) (parameters : List String)
    (body : List Node) :
    Scopes.Alike ρ (a.define i name parameters body) (b.define j name parameters body) := by
  unfold Scopes.define Scopes.setFunction
  refine h.modify hij (h.older_left.define i name parameters body)
    (h.older_right.define j name parameters body) ?_
  intro s t hst
  exact ⟨hst.values, hst.functions.insert _ (.defined name parameters body hij), hst.parent⟩

/-- New scopes within paired ones are paired with each other. -/
theorem add (h : Scopes.Alike ρ a b) (hij : ρ i j) :
    Scopes.Alike (ρ.insert a.size b.size) (a.add (some i)) (b.add (some j)) := by
  refine ⟨h.older_left.add (h.lt_size hij).1, h.older_right.add (h.lt_size hij).2, ?_, ?_, ?_⟩
  · -- the new scopes are paired with no other
    rintro x y y' (hxy | ⟨hx, hy⟩) (hxy' | ⟨hx', hy'⟩)
    · exact h.unique_left hxy hxy'
    · exact absurd (h.lt_size hxy).1 (hx' ▸ Nat.lt_irrefl _)
    · exact absurd (h.lt_size hxy').1 (hx ▸ Nat.lt_irrefl _)
    · rw [hy, hy']
  · rintro x x' y (hxy | ⟨hx, hy⟩) (hxy' | ⟨hx', hy'⟩)
    · exact h.unique_right hxy hxy'
    · exact absurd (h.lt_size hxy).2 (hy' ▸ Nat.lt_irrefl _)
    · exact absurd (h.lt_size hxy').2 (hy ▸ Nat.lt_irrefl _)
    · rw [hx, hx']
  · rintro x y (hxy | ⟨rfl, rfl⟩)
    · obtain ⟨s, t, hs, ht, hst⟩ := h.paired hxy
      have hx := (h.lt_size hxy).1
      have hy := (h.lt_size hxy).2
      refine ⟨s, t, ?_, ?_, hst.mono fun _ _ => .inl⟩
      · rw [Scopes.add, Array.getElem?_push, if_neg (Nat.ne_of_lt hx), hs]
      · rw [Scopes.add, Array.getElem?_push, if_neg (Nat.ne_of_lt hy), ht]
    · refine ⟨.empty (some i), .empty (some j), ?_, ?_, rfl, .nil, .some (.inl hij)⟩
      · rw [Scopes.add, Array.getElem?_push, if_pos rfl]
      · rw [Scopes.add, Array.getElem?_push, if_pos rfl]

end Scopes.Alike

/-! ## States and steps that are alike -/

/-- The scopes are alike, the same input is pending, and the same events were recorded since two
    earlier points. -/
structure Machine.Alike (past past' : List Event) (ρ : Pairing) (m m' : Machine) : Prop where
  scopes : m.scopes.Alike ρ m'.scopes
  inputs : m.inputs = m'.inputs
  events : ∃ out, m.events.toList = past ++ out ∧ m'.events.toList = past' ++ out

/-- From states that are alike, two steps give the same result and end in states that are alike,
    under a pairing that may have grown. -/
def Run.Alike {α : Type} (past past' : List Event) (ρ : Pairing) (p q : Run α) : Prop :=
  ∀ m m' : Machine, m.Alike past past' ρ m' →
    (m.perform p).1 = (m'.perform q).1 ∧
      ∃ ρ' : Pairing, (∀ i j, ρ i j → ρ' i j) ∧
        (m.perform p).2.Alike past past' ρ' (m'.perform q).2

section Alike

variable {past past' : List Event}

namespace Run

variable {α β : Type}

theorem alike_pure (a : α) : Run.Alike past past' ρ (pure a : Run α) (pure a) :=
  fun _ _ h => ⟨rfl, ρ, fun _ _ hij => hij, h⟩

theorem alike_throw (e : RuntimeError) :
    Run.Alike past past' ρ (throw e : Run α) (throw e) :=
  fun _ _ h => ⟨rfl, ρ, fun _ _ hij => hij, h⟩

theorem alike_bind {p q : Run α} {f g : α → Run β} (hpq : Run.Alike past past' ρ p q)
    (hfg : ∀ (ρ' : Pairing), (∀ i j, ρ i j → ρ' i j) → ∀ a,
      Run.Alike past past' ρ' (f a) (g a)) :
    Run.Alike past past' ρ (p >>= f) (q >>= g) := by
  intro m m' h
  obtain ⟨hresult, ρ₁, hρ₁, hafter⟩ := hpq m m' h
  rw [Machine.perform_bind, Machine.perform_bind]
  rcases hp : m.perform p with ⟨r, after⟩
  rcases hq : m'.perform q with ⟨r', after'⟩
  rw [hp, hq] at hresult hafter
  simp only at hresult hafter
  subst hresult
  cases r with
  | error e => exact ⟨rfl, ρ₁, hρ₁, hafter⟩
  | ok a =>
      obtain ⟨hresult', ρ₂, hρ₂, hend⟩ := hfg ρ₁ hρ₁ a after after' hafter
      exact ⟨hresult', ρ₂, fun i j hij => hρ₂ i j (hρ₁ i j hij), hend⟩

theorem alike_record (event : Event) :
    Run.Alike past past' ρ (record event) (record event) := by
  intro m m' h
  obtain ⟨out, hout, hout'⟩ := h.events
  refine ⟨rfl, ρ, fun _ _ hij => hij, h.scopes, h.inputs, out ++ [event], ?_, ?_⟩
  · simp [hout]
  · simp [hout']

theorem alike_trace (traced : Bool) (line : String) :
    Run.Alike past past' ρ (trace traced line) (trace traced line) := by
  cases traced
  · exact alike_pure ()
  · exact alike_record _

theorem alike_ofExcept (r : Except RuntimeError α) :
    Run.Alike past past' ρ (ofExcept r) (ofExcept r) := by
  cases r
  · exact alike_throw _
  · exact alike_pure _

theorem alike_setVariable {i j : ScopeId} (hij : ρ i j) (name : String) (value : Node) :
    Run.Alike past past' ρ (updateScopes fun scopes => scopes.setVariable i name value)
      (updateScopes fun scopes => scopes.setVariable j name value) :=
  fun _ _ h => ⟨rfl, ρ, fun _ _ hij => hij, h.scopes.setVariable hij name value, h.inputs,
    h.events⟩

theorem alike_define {i j : ScopeId} (hij : ρ i j) (name : String) (parameters : List String)
    (body : List Node) :
    Run.Alike past past' ρ (updateScopes fun scopes => scopes.define i name parameters body)
      (updateScopes fun scopes => scopes.define j name parameters body) :=
  fun _ _ h => ⟨rfl, ρ, fun _ _ hij => hij, h.scopes.define hij name parameters body, h.inputs,
    h.events⟩

end Run

namespace Evaluator

open Run

/-- In paired scopes the evaluator does the same. -/
structure Alike (past past' : List Event) (e : Evaluator) : Prop where
  expression : ∀ {ρ : Pairing} {i j : ScopeId}, ρ i j → ∀ node,
    Run.Alike past past' ρ (e.expression i node) (e.expression j node)
  statement : ∀ {ρ : Pairing} {i j : ScopeId}, ρ i j → ∀ node,
    Run.Alike past past' ρ (e.statement i node) (e.statement j node)

theorem alike_builtin (action : Builtin) :
    Run.Alike past past' ρ (builtin action) (builtin action) := by
  cases action with
  | constant result => exact alike_pure result
  | readLine input =>
      intro m m' h
      simp only [builtin, readLine, Machine.perform_get_bind, h.inputs]
      split
      · rename_i line rest _
        exact ⟨rfl, ρ, fun _ _ hij => hij, h.scopes,
          congrArg (fun inputs : Array (List String) => inputs.set! input rest) h.inputs, h.events⟩
      · exact ⟨rfl, ρ, fun _ _ hij => hij, h⟩

theorem alike_bindParameters {i j : ScopeId} (hij : ρ i j) (names : List String)
    (values : List Node) :
    Run.Alike past past' ρ (Evaluator.bind i names values) (Evaluator.bind j names values) := by
  induction names generalizing values ρ with
  | nil => exact alike_pure ()
  | cons name names ih =>
      cases values with
      | nil => exact alike_pure ()
      | cons value values =>
          exact alike_bind (alike_setVariable hij name value) fun ρ' hρ' _ =>
            ih (hρ' i j hij) values

theorem alike_print (values : List Node) :
    Run.Alike past past' ρ (print values) (print values) := by
  induction values generalizing ρ with
  | nil => exact alike_pure ()
  | cons n rest ih =>
      refine alike_bind (alike_ofExcept _) fun ρ' _ value => ?_
      exact alike_bind (alike_record _) fun ρ'' _ _ => ih

namespace Alike

variable {e : Evaluator} (he : e.Alike past past') {i j : ScopeId}

include he

theorem expressions (hij : ρ i j) (nodes : List Node) :
    Run.Alike past past' ρ (e.expressions i nodes) (e.expressions j nodes) := by
  induction nodes generalizing ρ with
  | nil => exact alike_pure []
  | cons n rest ih =>
      refine alike_bind (he.expression hij n) fun ρ' hρ' value => ?_
      exact alike_bind (ih (hρ' i j hij)) fun ρ'' _ values => alike_pure _

theorem block (hij : ρ i j) (statements : List Node) :
    Run.Alike past past' ρ (e.block i statements) (e.block j statements) := by
  suffices h : ∀ last, Run.Alike past past' ρ (e.blockFrom i last statements)
      (e.blockFrom j last statements) from h .nothing
  induction statements generalizing ρ with
  | nil => exact fun last => alike_pure last
  | cons s rest ih =>
      intro last
      refine alike_bind (he.statement hij s) fun ρ' hρ' completion => ?_
      split
      · exact alike_pure _
      · exact ih (hρ' i j hij) completion

/-- Calling the same function, closed over paired scopes. The scopes that the two calls make become
    a pair. -/
theorem apply {f g : Function} (hfg : f.Alike ρ g) (values : List Node) :
    Run.Alike past past' ρ (e.apply f values) (e.apply g values) := by
  cases hfg with
  | builtin name parameters action => exact alike_builtin action
  | @defined name parameters body i j hij =>
      intro m m' h
      -- the body is run in the new scopes, which are a pair from the moment they are made
      have hbody : Run.Alike past past' (ρ.insert m.scopes.size m'.scopes.size)
          (e.runBody m.scopes.size parameters values body)
          (e.runBody m'.scopes.size parameters values body) := by
        have hown : ρ.insert m.scopes.size m'.scopes.size m.scopes.size m'.scopes.size :=
          .inr ⟨rfl, rfl⟩
        refine alike_bind (alike_bindParameters hown parameters values) fun ρ' hρ' _ => ?_
        refine alike_bind (he.block (hρ' _ _ hown) body) fun ρ'' _ completion => ?_
        split <;> exact alike_pure _
      have hentered : Machine.Alike past past' (ρ.insert m.scopes.size m'.scopes.size)
          { m with scopes := m.scopes.add (some i) }
          { m' with scopes := m'.scopes.add (some j) } :=
        ⟨h.scopes.add hij, h.inputs, h.events⟩
      obtain ⟨hresult, ρ', hρ', hend⟩ := hbody _ _ hentered
      rw [perform_apply_defined, perform_apply_defined]
      exact ⟨hresult, ρ', fun x y hxy => hρ' x y (.inl hxy), hend⟩

theorem call (traced : Bool) (hij : ρ i j) (name : String) (arguments : List Node) :
    Run.Alike past past' ρ (call traced e i name arguments) (call traced e j name arguments) := by
  intro m m' h
  simp only [Evaluator.call, Machine.perform_get_bind]
  have hfound := h.scopes.findFunction? hij name
  revert hfound
  generalize m.scopes.findFunction? i name = f?
  generalize m'.scopes.findFunction? j name = g?
  rintro (⟨hfg⟩ | _)
  · rename_i f g
    simp only [hfg.parameters_eq, hfg.name_eq]
    split
    · exact ⟨rfl, ρ, fun _ _ hxy => hxy, h⟩
    · have hrest : Run.Alike past past' ρ
          (do
            let values ← e.expressions i arguments
            Run.trace traced s!"Calling {g.name} with {values.length} arguments"
            e.apply f values)
          (do
            let values ← e.expressions j arguments
            Run.trace traced s!"Calling {g.name} with {values.length} arguments"
            e.apply g values) := by
        -- the arguments may pair further scopes, under which the functions found before stay alike
        refine alike_bind (he.expressions hij arguments) fun ρ' hρ' values => ?_
        refine alike_bind (alike_trace traced _) fun ρ'' hρ'' _ => ?_
        exact he.apply (hfg.mono fun x y hxy => hρ'' x y (hρ' x y hxy)) values
      exact hrest m m' h
  · exact ⟨rfl, ρ, fun _ _ hxy => hxy, h⟩

theorem evaluate (traced : Bool) (hij : ρ i j) (node : Node) :
    Run.Alike past past' ρ (evaluate traced e i node) (evaluate traced e j node) := by
  refine alike_bind (alike_trace traced _) fun ρ₁ hρ₁ _ => ?_
  have hij₁ := hρ₁ i j hij
  split
  · -- a literal
    exact alike_pure _
  · -- an operation
    rename_i operator left right
    refine alike_bind (he.expression hij₁ left) fun ρ₂ hρ₂ l => ?_
    refine alike_bind (he.expression (hρ₂ i j hij₁) right) fun ρ₃ _ r => ?_
    exact alike_bind (alike_ofExcept _) fun ρ₄ _ v => alike_pure _
  · -- a reference
    intro m m' h
    simp only [Machine.perform_get_bind, h.scopes.findVariable? hij₁]
    split <;> exact ⟨rfl, ρ₁, fun _ _ hxy => hxy, h⟩
  · -- a call
    exact he.call traced hij₁ _ _
  · -- no expression
    exact alike_throw _

theorem choose (hij : ρ i j) (otherwise : Option (List Node)) (branches : List (Branch Node)) :
    Run.Alike past past' ρ (e.choose i otherwise branches) (e.choose j otherwise branches) := by
  induction branches generalizing ρ with
  | nil =>
      cases otherwise with
      | none => exact alike_pure _
      | some body => exact he.block hij body
  | cons branch others ih =>
      refine alike_bind (he.expression hij branch.condition) fun ρ' hρ' value => ?_
      split
      · exact he.block (hρ' i j hij) branch.body
      · exact ih (hρ' i j hij)

theorem execute (traced : Bool) (hij : ρ i j) (node : Node) :
    Run.Alike past past' ρ (execute traced e i node) (execute traced e j node) := by
  refine alike_bind (alike_trace traced _) fun ρ₁ hρ₁ _ => ?_
  have hij₁ := hρ₁ i j hij
  split
  · -- an expression
    exact alike_bind (he.expression hij₁ _) fun ρ₂ _ _ => alike_pure _
  · -- a definition of a variable
    refine alike_bind (he.expression hij₁ _) fun ρ₂ hρ₂ value => ?_
    exact alike_bind (alike_setVariable (hρ₂ i j hij₁) _ value) fun ρ₃ _ _ => alike_pure _
  · -- a definition of a function
    exact alike_bind (alike_define hij₁ _ _ _) fun ρ₂ _ _ => alike_pure _
  · -- a return
    exact alike_bind (he.expression hij₁ _) fun ρ₂ _ _ => alike_pure _
  · -- a print
    refine alike_bind (he.expressions hij₁ _) fun ρ₂ _ values => ?_
    exact alike_bind (alike_print values) fun ρ₃ _ _ => alike_pure _
  · -- a conditional
    exact he.choose hij₁ _ _
  · -- no statement
    exact alike_throw _

end Alike

end Evaluator

end Alike

/-! ## The scopes on which a function depends -/

/-- The scopes from `start` outwards: itself, and the scope around each of them. -/
inductive Scopes.OnChain (scopes : Scopes) (start : ScopeId) : ScopeId → Prop where
  | self : OnChain scopes start start
  | parent {id parent : ScopeId} {s : Scope} : OnChain scopes start id →
    scopes[id]? = some s → s.parent = some parent → OnChain scopes start parent

/-- The pairing of the scopes on a chain with themselves. -/
def Pairing.chain (scopes : Scopes) (start : ScopeId) : Pairing :=
  fun i j => i = j ∧ scopes.OnChain start i

namespace Scopes

variable {a b : Scopes} {start : ScopeId}

theorem OnChain.lt_size (ha : a.WellFormed) (hstart : start < a.size) {id : ScopeId}
    (h : a.OnChain start id) : id < a.size := by
  induction h with
  | self => exact hstart
  | parent _ hs hparent ih => exact Nat.lt_trans (ha.parent_lt hs hparent) ih

end Scopes

end Klartext
