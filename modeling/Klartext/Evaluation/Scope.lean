import Klartext.Text.Blank
import Klartext.Tree.Node

set_option autoImplicit false

/-! # Scopes

A scope holds variables and functions, in two tables that do not affect each other, and may lie in
another scope. A name is looked up in a scope and then in the scopes around it, under its normal
form; it is always bound in the scope itself. Tables keep the order in which their names were first
bound. -/

namespace Klartext

/-! ## Tables -/

/-- Names with what they stand for, in the order in which they were first bound. -/
abbrev Table (α : Type) : Type := List (String × α)

namespace Table

variable {α : Type}

/-- What a name stands for. -/
def get? (t : Table α) (name : String) : Option α := t.lookup name

/-- The table with a name bound anew, in its old place if it has one and at the end otherwise. -/
def insert (t : Table α) (name : String) (a : α) : Table α :=
  match t with
  | [] => [(name, a)]
  | (other, b) :: rest =>
    if name == other then (other, a) :: rest else (other, b) :: insert rest name a

/-- The names of a table. -/
def names (t : Table α) : List String := t.map Prod.fst

theorem get?_insert (t : Table α) (name other : String) (a : α) :
    (t.insert name a).get? other = if other == name then some a else t.get? other := by
  induction t with
  | nil => simp only [insert, get?, List.lookup_cons, List.lookup_nil]; split <;> simp_all
  | cons entry rest ih =>
    obtain ⟨first, b⟩ := entry
    simp only [insert, get?] at ih ⊢
    split
    · rename_i h
      rw [beq_iff_eq] at h
      subst h
      simp only [List.lookup_cons]
      split <;> simp_all
    · rename_i h
      simp only [List.lookup_cons]
      split
      · rename_i h'
        rw [beq_iff_eq] at h'
        subst h'
        simp_all [BEq.comm]
      · exact ih

/-- Binding a name that is bound already keeps the order of the names. -/
theorem names_insert (t : Table α) (name : String) (a : α) :
    (t.insert name a).names = if name ∈ t.names then t.names else t.names ++ [name] := by
  induction t with
  | nil => simp [insert, names]
  | cons entry rest ih =>
    obtain ⟨first, b⟩ := entry
    simp only [insert, names] at ih ⊢
    by_cases h : name = first
    · simp [h]
    · simp only [beq_iff_eq, h, if_false, List.map_cons, List.mem_cons, false_or, ih]
      split <;> simp_all

end Table

/-! ## Scopes -/

/-- The number of a scope, in the order in which the scopes were made. -/
abbrev ScopeId : Type := Nat

/-- What a built-in function does: it reads a line of an input, or it answers with one node. -/
inductive Builtin where
  | readLine (input : Nat)
  | constant (result : Node)

/-- A function that a scope holds. -/
inductive Function where
  /-- A function of the program, with the scope that it was defined in. -/
  | defined (name : String) (parameters : List String) (body : List Node) (closure : ScopeId)
  | builtin (name : String) (parameters : List String) (action : Builtin)

namespace Function

/-- The name of a function as messages show it. -/
def name : Function → String
  | .defined name _ _ _ => name
  | .builtin name _ _ => name

/-- The names of the parameters. -/
def parameters : Function → List String
  | .defined _ parameters _ _ => parameters
  | .builtin _ parameters _ => parameters

end Function

/-- A scope: the scope around it, if any, and what it holds. -/
structure Scope where
  parent : Option ScopeId
  /-- What the variables stand for. -/
  values : Table Node
  functions : Table Function

/-- A scope that holds nothing. -/
def Scope.empty (parent : Option ScopeId) : Scope := ⟨parent, [], []⟩

/-- All scopes made so far; the number of a scope is its index. -/
abbrev Scopes : Type := Array Scope

namespace Scopes

/-- The scopes with a new one, which gets the next number. -/
def add (scopes : Scopes) (parent : Option ScopeId) : Scopes := scopes.push (Scope.empty parent)

/-- Looks for something in a scope and then in the scopes around it, at most `bound` of them. -/
def searchUp {α : Type} (scopes : Scopes) (look : Scope → Option α) :
    (bound : Nat) → ScopeId → Option α
  | 0, _ => none
  | bound + 1, id =>
    match scopes[id]? with
    | none => none
    | some scope =>
      match look scope with
      | some a => some a
      | none =>
        match scope.parent with
        | some parent => searchUp scopes look bound parent
        | none => none

/-- Looks for something in a scope and then in the scopes around it. These are older, so there are
    no more of them than the number of the scope says. -/
def search {α : Type} (scopes : Scopes) (look : Scope → Option α) (id : ScopeId) : Option α :=
  searchUp scopes look (id + 1) id

/-- What a variable stands for, seen from a scope. A name that is bound to nothing at all hides the
    scopes around it and stands for nothing. -/
def findVariable? (scopes : Scopes) (id : ScopeId) (name : String) : Option Node :=
  match scopes.search (fun scope => scope.values.get? (normalizeName name)) id with
  | some (.bare .null) => none
  | found => found

/-- The function of a name, seen from a scope. -/
def findFunction? (scopes : Scopes) (id : ScopeId) (name : String) : Option Function :=
  scopes.search (fun scope => scope.functions.get? (normalizeName name)) id

/-- The scopes with a variable bound in one of them. -/
def setVariable (scopes : Scopes) (id : ScopeId) (name : String) (value : Node) : Scopes :=
  scopes.modify id fun scope =>
    { scope with values := scope.values.insert (normalizeName name) value }

/-- The scopes with a function bound in one of them, under a given name. -/
def setFunction (scopes : Scopes) (id : ScopeId) (name : String) (function : Function) : Scopes :=
  scopes.modify id fun scope =>
    { scope with functions := scope.functions.insert (normalizeName name) function }

/-- The scopes with a function of the program defined in one of them; it closes over that scope. -/
def define (scopes : Scopes) (id : ScopeId) (name : String) (parameters : List String)
    (body : List Node) : Scopes :=
  scopes.setFunction id name (.defined name parameters body id)

/-- The scopes with a built-in function in one of them, which is named in normal form. -/
def addBuiltin (scopes : Scopes) (id : ScopeId) (name : String) (parameters : List String)
    (action : Builtin) : Scopes :=
  scopes.setFunction id name (.builtin (normalizeName name) parameters action)

end Scopes

/-! ## Built-in functions -/

/-- The name of the function that reads a line of input. -/
def readLineName : String := "Eingabe Einlesen"

/-- The names of the built-in functions. -/
def builtinNames : List String := [readLineName]

/-- The scopes with a new outermost scope, which holds the built-in functions; they read from the
    given input. -/
def Scopes.addStandard (scopes : Scopes) (input : Nat) : Scopes :=
  (scopes.add none).addBuiltin scopes.size readLineName [] (.readLine input)

end Klartext
