import Klartext.Proofs.Evaluation.LexicalScope
import Klartext.Proofs.Rules.Tree

set_option autoImplicit false

/-! # What scopes hold

Scopes are made one within another, and names are bound in them. From a scope, a name stands for what
the nearest scope that holds it binds it to (`Scopes.find?_of_nearest`), so that binding a name in one
scope shows exactly where this scope is the nearest that holds the name (`Scopes.Rebinds`).

The two tables are searched in the same way, so everything is said for a table that is chosen by a
projection of scopes. -/

namespace Klartext

/-- Names have the same normal form if they have the same words. -/
theorem normalizeName_eq_iff {name other : String} :
    normalizeName name = normalizeName other ↔
      Text.words name.toList = Text.words other.toList := by
  rw [normalizeName, normalizeName, String.ofList_inj, Text.normalize_eq_iff]

theorem Table.get?_eq_none_iff {α : Type} {t : Table α} {name : String} :
    t.get? name = none ↔ name ∉ t.names := by
  rw [get?, names, List.lookup_eq_none_iff, List.mem_map]
  constructor
  · rintro h ⟨entry, hentry, rfl⟩
    simpa using h entry hentry
  · intro h entry hentry
    rw [bne_iff_ne]
    rintro rfl
    exact h ⟨entry, hentry, rfl⟩

theorem Table.mem_names_insert {α : Type} (t : Table α) (name : String) (a : α) :
    name ∈ (t.insert name a).names := by
  rw [Table.names_insert]
  split
  · assumption
  · exact List.mem_append_right _ List.mem_cons_self

namespace Scopes

variable {scopes : Scopes} {α : Type}

/-! ## Searching along the chain -/

/-- What stands in a scope itself comes first, and then comes what is found from the scope around it. -/
theorem searchUp_succ {look : Scope → Option α} {id : ScopeId} {s : Scope}
    (hs : scopes[id]? = some s) (bound : Nat) :
    scopes.searchUp look (bound + 1) id =
      (look s).or (s.parent.bind (scopes.searchUp look bound)) := by
  simp only [searchUp, hs]
  cases look s with
  | some a => rfl
  | none => cases s.parent <;> rfl

theorem searchUp_eq_none {look : Scope → Option α} {id : ScopeId} (hs : scopes[id]? = none)
    (bound : Nat) : scopes.searchUp look bound id = none := by
  cases bound with
  | zero => rfl
  | succ bound => rw [searchUp, hs]

namespace WellFormed

variable (h : scopes.WellFormed)
include h

/-- Where scopes lie in older ones, the bound of a search is never reached. -/
theorem searchUp_congr {look : Scope → Option α} {n k : Nat} {id : ScopeId} (hn : id < n)
    (hk : id < k) : scopes.searchUp look n id = scopes.searchUp look k id := by
  induction n generalizing k id with
  | zero => exact absurd hn (Nat.not_lt_zero id)
  | succ n ih =>
      obtain ⟨k, rfl⟩ := Nat.exists_eq_succ_of_ne_zero (Nat.ne_zero_of_lt hk)
      cases hs : scopes[id]? with
      | none => rw [searchUp_eq_none hs, searchUp_eq_none hs]
      | some s =>
          rw [searchUp_succ hs, searchUp_succ hs]
          cases hparent : s.parent with
          | none => rfl
          | some parent =>
              have hlt : parent < id := h.parent_lt hs hparent
              have heq : scopes.searchUp look n parent = scopes.searchUp look k parent :=
                ih (Nat.lt_of_lt_of_le hlt (Nat.le_of_lt_succ hn))
                  (Nat.lt_of_lt_of_le hlt (Nat.le_of_lt_succ hk))
              rw [Option.bind_some, Option.bind_some, heq]

theorem search_eq {look : Scope → Option α} {id : ScopeId} {s : Scope}
    (hs : scopes[id]? = some s) :
    scopes.search look id = (look s).or (s.parent.bind (scopes.search look)) := by
  rw [search, searchUp_succ hs]
  cases hparent : s.parent with
  | none => rfl
  | some parent =>
      rw [Option.bind_some, Option.bind_some, search,
        h.searchUp_congr (h.parent_lt hs hparent) (Nat.lt_succ_self parent)]

/-- Whatever holds of a scope if it holds of the scope around it holds of every scope. -/
theorem induct {P : ScopeId → Prop} (hmissing : ∀ id, scopes[id]? = none → P id)
    (hscope : ∀ id s, scopes[id]? = some s → (∀ parent, s.parent = some parent → P parent) → P id)
    (id : ScopeId) : P id := by
  induction id using Nat.strongRecOn with
  | ind id ih =>
      cases hs : scopes[id]? with
      | none => exact hmissing id hs
      | some s => exact hscope id s hs fun parent hparent => ih parent (h.parent_lt hs hparent)

end WellFormed

/-! ## Holding a name -/

/-- A scope holds a name, in whatever spelling, in one of its tables. -/
def Holds (scopes : Scopes) (table : Scope → Table α) (name : String) (id : ScopeId) : Prop :=
  ∃ s, scopes[id]? = some s ∧ normalizeName name ∈ (table s).names

/-- The first scope that holds a name, from a scope on outwards. -/
inductive Nearest (scopes : Scopes) (table : Scope → Table α) (name : String) :
    ScopeId → ScopeId → Prop where
  | here {id : ScopeId} : scopes.Holds table name id → Nearest scopes table name id id
  | around {id parent owner : ScopeId} {s : Scope} : scopes[id]? = some s →
    ¬ scopes.Holds table name id → s.parent = some parent →
    Nearest scopes table name parent owner → Nearest scopes table name id owner

/-- What a name stands for in one of the tables, seen from a scope. -/
def find? (scopes : Scopes) (table : Scope → Table α) (id : ScopeId) (name : String) : Option α :=
  scopes.search (fun scope => (table scope).get? (normalizeName name)) id

variable {table : Scope → Table α} {name : String}

theorem get?_of_not_holds {id : ScopeId} {s : Scope} (hs : scopes[id]? = some s)
    (hnot : ¬ scopes.Holds table name id) : (table s).get? (normalizeName name) = none :=
  Table.get?_eq_none_iff.2 fun hmem => hnot ⟨s, hs, hmem⟩

theorem Holds.get?_eq_some {id : ScopeId} {s : Scope} (hs : scopes[id]? = some s)
    (hholds : scopes.Holds table name id) :
    ∃ a, (table s).get? (normalizeName name) = some a := by
  obtain ⟨s', hs', hmem⟩ := hholds
  obtain rfl : s' = s := Option.some.inj (hs'.symm.trans hs)
  exact Option.ne_none_iff_exists'.1 fun hnone => Table.get?_eq_none_iff.1 hnone hmem

/-- A name stands for what the nearest scope that holds it says. -/
theorem WellFormed.find?_of_nearest (h : scopes.WellFormed) {id owner : ScopeId}
    (hnearest : scopes.Nearest table name id owner) :
    ∃ s a, scopes[owner]? = some s ∧ (table s).get? (normalizeName name) = some a ∧
      scopes.find? table id name = some a := by
  induction hnearest with
  | here hholds =>
      obtain ⟨s, hs, hmem⟩ := hholds
      obtain ⟨a, ha⟩ := Holds.get?_eq_some hs ⟨s, hs, hmem⟩
      refine ⟨s, a, hs, ha, ?_⟩
      rw [find?, h.search_eq hs, ha]
      rfl
  | around hs hnot hparent hnearest ih =>
      obtain ⟨s', a, hs', ha, hfind⟩ := ih
      refine ⟨s', a, hs', ha, ?_⟩
      rw [find?, h.search_eq hs, get?_of_not_holds hs hnot, hparent, Option.none_or, Option.bind_some]
      exact hfind

/-- What lies on the chain of the scope around a scope lies on the chain of that scope. -/
theorem OnChain.around {id parent owner : ScopeId} {s : Scope} (hs : scopes[id]? = some s)
    (hparent : s.parent = some parent) (h : scopes.OnChain parent owner) :
    scopes.OnChain id owner := by
  induction h with
  | self => exact OnChain.self.parent hs hparent
  | parent _ hs' hparent' ih => exact ih.parent hs' hparent'

/-- If some scope on the chain holds a name, one of them is the nearest that does. -/
theorem OnChain.exists_nearest {id owner : ScopeId} (h : scopes.OnChain id owner)
    (hholds : scopes.Holds table name owner) : ∃ nearest, scopes.Nearest table name id nearest := by
  suffices hback : ∀ nearest, scopes.Nearest table name owner nearest →
      ∃ nearest, scopes.Nearest table name id nearest from hback owner (.here hholds)
  clear hholds
  -- from the owner back to the scope: each scope is the nearest itself or passes on what it sees
  induction h with
  | self => exact fun nearest hnearest => ⟨nearest, hnearest⟩
  | @parent there _ _ _ hs hparent ih =>
      intro nearest hnearest
      by_cases hthere : scopes.Holds table name there
      · exact ih there (.here hthere)
      · exact ih nearest (.around hs hthere hparent hnearest)

/-- A name stands for nothing if no scope from there on outwards holds it. -/
theorem WellFormed.find?_eq_none_iff (h : scopes.WellFormed) {id : ScopeId} :
    scopes.find? table id name = none ↔
      ∀ owner, scopes.OnChain id owner → ¬ scopes.Holds table name owner := by
  constructor
  · intro hnone owner hchain hholds
    obtain ⟨nearest, hnearest⟩ := hchain.exists_nearest hholds
    obtain ⟨-, a, -, -, hfind⟩ := h.find?_of_nearest hnearest
    rw [hnone] at hfind
    cases hfind
  · induction id using h.induct with
    | hmissing id hs => exact fun _ => searchUp_eq_none hs _
    | hscope id s hs ih =>
        intro hall
        rw [find?, h.search_eq hs, get?_of_not_holds hs (hall id .self), Option.none_or]
        cases hparent : s.parent with
        | none => rfl
        | some parent =>
            exact ih parent hparent fun owner howner => hall owner (howner.around hs hparent)

theorem WellFormed.find?_eq_some_iff (h : scopes.WellFormed) {id : ScopeId} {a : α} :
    scopes.find? table id name = some a ↔
      ∃ owner s, scopes.Nearest table name id owner ∧ scopes[owner]? = some s ∧
        (table s).get? (normalizeName name) = some a := by
  constructor
  · intro hfind
    obtain ⟨owner, hchain, hholds⟩ : ∃ owner, scopes.OnChain id owner ∧
        scopes.Holds table name owner := by
      refine Classical.byContradiction fun hnone => ?_
      rw [h.find?_eq_none_iff.2 fun owner hchain hholds => hnone ⟨owner, hchain, hholds⟩] at hfind
      cases hfind
    obtain ⟨nearest, hnearest⟩ := hchain.exists_nearest hholds
    obtain ⟨s, b, hs, hb, hfind'⟩ := h.find?_of_nearest hnearest
    rw [hfind] at hfind'
    cases hfind'
    exact ⟨nearest, s, hnearest, hs, hb⟩
  · rintro ⟨owner, s, hnearest, hs, ha⟩
    obtain ⟨s', b, hs', hb, hfind⟩ := h.find?_of_nearest hnearest
    obtain rfl : s' = s := Option.some.inj (hs'.symm.trans hs)
    rw [hfind, ← hb, ha]

/-! ## Binding a name -/

/-- After a name is bound in a scope, it stands for the answer from where this scope is the nearest that
    now holds it, and every other lookup gives what it gave before. Names keep their places in the
    table, and no other scope is touched. -/
structure Rebinds (table : Scope → Table α) (look : Scopes → ScopeId → String → Option α)
    (before after : Scopes) (scope : ScopeId) (name : String) (answer : Option α) : Prop where
  seen : ∀ {id : ScopeId} {other : String}, Text.words other.toList = Text.words name.toList →
    after.Nearest table other id scope → look after id other = answer
  unseen : ∀ {id : ScopeId} {other : String},
    ¬ (Text.words other.toList = Text.words name.toList ∧ after.Nearest table other id scope) →
    look after id other = look before id other
  names_eq : ∀ {s : Scope}, before[scope]? = some s → ∃ s', after[scope]? = some s' ∧
    (table s').names = if normalizeName name ∈ (table s).names then (table s).names
      else (table s).names ++ [normalizeName name]
  elsewhere : ∀ {id : ScopeId}, id ≠ scope → after[id]? = before[id]?

section Modify

variable {scope : ScopeId} {f : Scope → Scope}

/-- A change of a scope that a search does not look at does not change what is found. -/
theorem search_modify (hparent : ∀ s, (f s).parent = s.parent) {look : Scope → Option α}
    (hlook : ∀ s, look (f s) = look s) (id : ScopeId) :
    Scopes.search (scopes.modify scope f) look id = scopes.search look id := by
  suffices hup : ∀ bound id,
      Scopes.searchUp (scopes.modify scope f) look bound id = scopes.searchUp look bound id from
    hup (id + 1) id
  -- both searches go the same way, whichever scope on it was changed
  intro bound
  induction bound with
  | zero => exact fun _ => rfl
  | succ bound ih =>
      intro id
      cases hs : scopes[id]? with
      | none =>
          have hs' : (scopes.modify scope f)[id]? = none := by
            rw [Array.getElem?_modify, hs, Option.map_none, ite_self]
          rw [searchUp_eq_none hs, searchUp_eq_none hs']
      | some s =>
          obtain ⟨s', hs', hlook', hparent'⟩ : ∃ s', (scopes.modify scope f)[id]? = some s' ∧
              look s' = look s ∧ s'.parent = s.parent := by
            rw [Array.getElem?_modify, hs]
            split
            · exact ⟨f s, rfl, hlook s, hparent s⟩
            · exact ⟨s, rfl, rfl, rfl⟩
          rw [searchUp_succ hs, searchUp_succ hs', hlook', hparent', funext ih]

variable {a : α} (hparent : ∀ s, (f s).parent = s.parent)
  (htable : ∀ s, table (f s) = (table s).insert (normalizeName name) a)

theorem modify_self {s : Scope} (hs : scopes[scope]? = some s) :
    (Array.modify scopes scope f)[scope]? = some (f s) := by
  rw [Array.getElem?_modify, if_pos rfl, hs, Option.map_some]

theorem modify_other {id : ScopeId} (hid : id ≠ scope) :
    (Array.modify scopes scope f)[id]? = scopes[id]? := by
  rw [Array.getElem?_modify, if_neg (Ne.symm hid)]

include htable

/-- From where another scope is the nearest that holds the name, or none is, the change is not seen. -/
theorem find?_modify_unseen (h : scopes.WellFormed)
    (hafter : WellFormed (Array.modify scopes scope f)) {other : String}
    (hother : normalizeName other = normalizeName name)
    {id : ScopeId} (hnot : ¬ Nearest (Array.modify scopes scope f) table other id scope) :
    find? (Array.modify scopes scope f) table id other = scopes.find? table id other := by
  induction id using h.induct with
  | hmissing id hs =>
      have hs' : (Array.modify scopes scope f)[id]? = none := by
        rw [Array.getElem?_modify, hs, Option.map_none, ite_self]
      rw [find?, find?, search, search, searchUp_eq_none hs, searchUp_eq_none hs']
  | hscope id s hs ih =>
      by_cases hid : id = scope
      · -- the changed scope holds the name now, so that from itself it is the nearest
        subst hid
        refine absurd (Nearest.here ⟨f s, modify_self hs, ?_⟩) hnot
        rw [htable, hother]
        exact Table.mem_names_insert _ _ a
      · have hs' : (Array.modify scopes scope f)[id]? = some s := (modify_other hid).trans hs
        rw [find?, find?, h.search_eq hs, hafter.search_eq hs']
        cases hlook : (table s).get? (normalizeName other) with
        | some b => rfl
        | none =>
            cases hup : s.parent with
            | none => rfl
            | some parent =>
                refine ih parent hup fun hnearest => hnot (.around hs' ?_ hup hnearest)
                rintro ⟨s'', hs'', hmem⟩
                obtain rfl : s'' = s := Option.some.inj (hs''.symm.trans hs')
                exact Table.get?_eq_none_iff.1 hlook hmem

include hparent

theorem find?_modify_other {other : String} (hother : normalizeName other ≠ normalizeName name)
    (id : ScopeId) :
    find? (Array.modify scopes scope f) table id other = scopes.find? table id other := by
  refine search_modify hparent (fun s => ?_) id
  rw [htable, Table.get?_insert, if_neg (by simpa using hother)]

/-- Whatever is read off one of the tables is bound by a change of one scope that binds a name in this
    table. -/
theorem rebinds_modify (h : scopes.WellFormed) (hafter : WellFormed (Array.modify scopes scope f))
    {look : Scopes → ScopeId → String → Option α} (g : α → Option α)
    (hlook : ∀ scopes id name, look scopes id name = (find? scopes table id name).bind g) :
    Rebinds table look scopes (Array.modify scopes scope f) scope name (g a) := by
  refine ⟨?_, ?_, ?_, modify_other⟩
  · intro id other hwords hnearest
    obtain ⟨s, b, hs, hb, hfind⟩ := hafter.find?_of_nearest hnearest
    rw [Array.getElem?_modify, if_pos rfl, Option.map_eq_some_iff] at hs
    obtain ⟨old, -, rfl⟩ := hs
    rw [htable, normalizeName_eq_iff.2 hwords, Table.get?_insert, if_pos (beq_self_eq_true _)] at hb
    cases hb
    rw [hlook, hfind, Option.bind_some]
  · intro id other hnot
    rw [hlook, hlook]
    by_cases hother : normalizeName other = normalizeName name
    · rw [find?_modify_unseen htable h hafter hother fun hnearest =>
        hnot ⟨normalizeName_eq_iff.1 hother, hnearest⟩]
    · rw [find?_modify_other hparent htable hother]
  · intro s hs
    refine ⟨f s, modify_self hs, ?_⟩
    rw [htable, Table.names_insert]

end Modify

/-! ## Scopes that programs build -/

/-- Scopes that are made one after the other, each by itself or within an older one, while variables and
    functions are bound in those that there are. -/
inductive Built : Scopes → Prop where
  | empty : Built #[]
  | add {scopes : Scopes} (parent : Option ScopeId) : Built scopes →
    (∀ id, parent = some id → id < scopes.size) → Built (scopes.add parent)
  | setVariable {scopes : Scopes} (scope : ScopeId) (name : String) (value : Node) : Built scopes →
    Built (scopes.setVariable scope name value)
  | define {scopes : Scopes} (scope : ScopeId) (name : String) (parameters : List String)
    (body : List Node) : Built scopes → Built (scopes.define scope name parameters body)
  | addBuiltin {scopes : Scopes} (scope : ScopeId) (name : String) (parameters : List String)
    (action : Builtin) : Built scopes → Built (scopes.addBuiltin scope name parameters action)

theorem wellFormed_empty : WellFormed #[] :=
  ⟨fun hs _ => (nomatch hs : False).elim, fun hs _ => (nomatch hs : False).elim⟩

theorem WellFormed.addRoot (h : scopes.WellFormed) : (scopes.add none).WellFormed := by
  refine ⟨?_, ?_⟩
  · intro id s p hs hp
    rcases getElem?_add_eq_some hs with ⟨rfl, rfl⟩ | hold
    · cases hp
    · exact h.parent_lt hold hp
  · intro id s key name parameters body closure hs hmem
    rcases getElem?_add_eq_some hs with ⟨rfl, rfl⟩ | hold
    · cases hmem
    · exact h.closure_eq hold hmem

theorem WellFormed.addBuiltin (h : scopes.WellFormed) (scope : ScopeId) (name : String)
    (parameters : List String) (action : Builtin) :
    (scopes.addBuiltin scope name parameters action).WellFormed := by
  refine ⟨?_, ?_⟩
  · intro id s p hs hp
    obtain ⟨old, hold, ⟨-, rfl⟩ | rfl⟩ := getElem?_modify_eq_some hs
    · exact h.parent_lt hold hp
    · exact h.parent_lt hold hp
  · intro id s key f parameters' body closure hs hmem
    obtain ⟨old, hold, ⟨rfl, rfl⟩ | rfl⟩ := getElem?_modify_eq_some hs
    · rcases Table.mem_insert hmem with hnew | hmem'
      · cases hnew
      · exact h.closure_eq hold hmem'
    · exact h.closure_eq hold hmem

theorem Built.wellFormed (h : scopes.Built) : scopes.WellFormed := by
  induction h with
  | empty => exact wellFormed_empty
  | add parent _ hparent ih =>
      cases parent with
      | none => exact ih.addRoot
      | some parent => exact ih.add (hparent parent rfl)
  | setVariable scope name value _ ih => exact ih.setVariable scope name value
  | define scope name parameters body _ ih => exact ih.define scope name parameters body
  | addBuiltin scope name parameters action _ ih => exact ih.addBuiltin scope name parameters action

/-! ## The laws -/

/-- What a variable stands for that is bound to a node. A variable that is bound to nothing at all
    stands for nothing. -/
def bound? : Node → Option Node
  | .bare .null => none
  | value => some value

theorem bound?_eq_some {value : Node} (h : value ≠ .bare .null) : bound? value = some value := by
  unfold bound?
  split
  · exact absurd rfl h
  · rfl

theorem bound?_eq_none_iff {value : Node} : bound? value = none ↔ value = .bare .null := by
  constructor
  · intro h
    refine Classical.byContradiction fun hne => ?_
    rw [bound?_eq_some hne] at h
    cases h
  · rintro rfl
    rfl

theorem findFunction?_eq (scopes : Scopes) (id : ScopeId) (name : String) :
    scopes.findFunction? id name = (find? scopes Scope.functions id name).bind some :=
  (Option.bind_fun_some _).symm

theorem findVariable?_eq (scopes : Scopes) (id : ScopeId) (name : String) :
    scopes.findVariable? id name = (find? scopes Scope.values id name).bind bound? := by
  rw [findVariable?, find?]
  split
  · rename_i hfound
    rw [hfound]
    rfl
  · rename_i hfound
    cases hsearch : scopes.search (fun scope => scope.values.get? (normalizeName name)) id with
    | none => rfl
    | some value =>
        rw [Option.bind_some, bound?_eq_some fun hvalue => hfound (hvalue ▸ hsearch)]

theorem rebinds_setVariable (h : scopes.WellFormed) (scope : ScopeId) (name : String) (value : Node) :
    Rebinds Scope.values findVariable? scopes (scopes.setVariable scope name value) scope name
      (bound? value) :=
  rebinds_modify (f := fun s => { s with values := s.values.insert (normalizeName name) value })
    (fun _ => rfl) (fun _ => rfl) h (h.setVariable scope name value) bound? findVariable?_eq

theorem rebinds_setFunction (h : scopes.WellFormed) {scope : ScopeId} {name : String}
    {function : Function} (hafter : (scopes.setFunction scope name function).WellFormed) :
    Rebinds Scope.functions findFunction? scopes (scopes.setFunction scope name function) scope name
      (some function) :=
  rebinds_modify (f := fun s => { s with functions := s.functions.insert (normalizeName name) function })
    (fun _ => rfl) (fun _ => rfl) h hafter some findFunction?_eq

/-- Variables are not found among functions. -/
theorem findFunction?_setVariable (scope : ScopeId) (name : String) (value : Node) (id : ScopeId)
    (other : String) :
    (scopes.setVariable scope name value).findFunction? id other = scopes.findFunction? id other :=
  search_modify (by intro s; rfl) (by intro s; rfl) id

/-- Functions are not found among variables. -/
theorem findVariable?_setFunction (scope : ScopeId) (name : String) (function : Function)
    (id : ScopeId) (other : String) :
    (scopes.setFunction scope name function).findVariable? id other =
      scopes.findVariable? id other := by
  rw [findVariable?_eq, findVariable?_eq, find?, find?]
  exact congrArg (Option.bind · bound?) (search_modify (by intro s; rfl) (by intro s; rfl) id)

/-- In scopes that were built one after the other, binding a variable or a function in a scope shows
    exactly where this scope is the nearest that now holds the name, and only in its own table. A function
    is missing just if no scope from there on outwards holds the name; a variable is missing if none does,
    or if the nearest that does binds it to nothing at all. -/
theorem Built.store_laws (h : scopes.Built) (scope : ScopeId) (name : String) :
    (∀ value : Node,
      Rebinds Scope.values findVariable? scopes (scopes.setVariable scope name value) scope name
        (bound? value) ∧
      ∀ id other, (scopes.setVariable scope name value).findFunction? id other =
        scopes.findFunction? id other) ∧
    (∀ (parameters : List String) (body : List Node),
      Rebinds Scope.functions findFunction? scopes (scopes.define scope name parameters body) scope name
        (some (.defined name parameters body scope)) ∧
      ∀ id other, (scopes.define scope name parameters body).findVariable? id other =
        scopes.findVariable? id other) ∧
    (∀ (parameters : List String) (action : Builtin),
      Rebinds Scope.functions findFunction? scopes (scopes.addBuiltin scope name parameters action)
        scope name (some (.builtin (normalizeName name) parameters action)) ∧
      ∀ id other, (scopes.addBuiltin scope name parameters action).findVariable? id other =
        scopes.findVariable? id other) ∧
    (∀ id other, scopes.findFunction? id other = none ↔
      ∀ owner, scopes.OnChain id owner → ¬ scopes.Holds Scope.functions other owner) ∧
    (∀ id other, scopes.findVariable? id other = none ↔
      (∀ owner, scopes.OnChain id owner → ¬ scopes.Holds Scope.values other owner) ∨
      ∃ owner s, scopes.Nearest Scope.values other id owner ∧ scopes[owner]? = some s ∧
        s.values.get? (normalizeName other) = some (.bare .null)) := by
  have hwell := h.wellFormed
  refine ⟨fun value => ⟨rebinds_setVariable hwell scope name value,
      findFunction?_setVariable scope name value⟩,
    fun parameters body => ⟨rebinds_setFunction hwell (hwell.define scope name parameters body),
      findVariable?_setFunction scope name _⟩,
    fun parameters action => ⟨rebinds_setFunction hwell (hwell.addBuiltin scope name parameters action),
      findVariable?_setFunction scope name _⟩,
    fun id other => hwell.find?_eq_none_iff, ?_⟩
  intro id other
  rw [findVariable?_eq, ← hwell.find?_eq_none_iff, ← hwell.find?_eq_some_iff]
  cases scopes.find? Scope.values id other with
  | none => simp
  | some value => simp [bound?_eq_none_iff]

/-- A name that is bound in a scope and, in another spelling, in the scope around it. -/
theorem Built.store_laws_shadowed :
    let outer := ((Scopes.add #[] none).setVariable 0 "x y" (.literal (.number 1))).add (some 0)
    let inner := outer.setVariable 1 " x  y" (.literal (.number 2))
    outer.Built ∧ inner.findVariable? 1 "x y" = some (.literal (.number 2)) ∧
      inner.findVariable? 0 "x y" = outer.findVariable? 0 "x y" := by
  intro outer inner
  have hbuilt : outer.Built :=
    ((Built.empty.add none fun _ h => nomatch h).setVariable 0 "x y" _).add (some 0) fun id hid => by
      cases hid
      decide
  have hlaws := ((hbuilt.store_laws 1 " x  y").1 (.literal (.number 2))).1
  refine ⟨hbuilt, hlaws.seen (by decide +kernel) (.here ⟨_, rfl, by decide +kernel⟩), hlaws.unseen ?_⟩
  rintro ⟨-, hnearest⟩
  cases hnearest with
  | around hs _ hparent _ =>
      cases hs
      cases hparent

/-- A variable that a scope holds, and that is not found because it is bound to nothing at all. -/
theorem bound_and_not_found :
    let scopes := (Scopes.add #[] none).setVariable 0 "x" (.bare .null)
    scopes.Built ∧ scopes.OnChain 0 0 ∧ scopes.Holds Scope.values "x" 0 ∧
      scopes.findVariable? 0 "x" = none := by
  intro scopes
  refine ⟨(Built.empty.add none fun _ h => nomatch h).setVariable 0 "x" _, .self,
    ⟨_, rfl, by decide +kernel⟩, by rfl⟩

end Scopes

end Klartext
