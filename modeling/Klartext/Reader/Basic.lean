import Klartext.Text.Search

set_option autoImplicit false

/-! # Readers

A reader takes something off the front of a text. It *finds* a value and leaves a rest, or it
*misses*, which takes nothing, so that another reader can be tried on the same text; or it *breaks
off*, which no alternative undoes. Readers are combined in `do` blocks, where a miss anywhere is a
miss of the whole block. -/

namespace Klartext

/-- What a reader refuses: a message about the text that begins with `rest`, and what was expected
    there. -/
structure Refusal where
  message : String
  rest : Text
  expected : List String
  deriving Repr, DecidableEq

/-- Why reading broke off. -/
inductive Failure where
  /-- The text cannot be meant as anything else, and it is wrong. -/
  | refused (refusal : Refusal)
  /-- The text is nested more deeply than the reader follows. -/
  | tooDeep
  /-- A run of digits is too long to be converted to a number. -/
  | tooManyDigits (count : Nat)
  deriving Repr, DecidableEq

/-- What comes of reading: a value and the text behind it, nothing, or a failure. -/
inductive Reading (α : Type) where
  | found (value : α) (rest : Text)
  | missed
  | broken (failure : Failure)

/-- Something that reads a value off the front of a text. -/
def Reader (α : Type) : Type := Text → Reading α

namespace Reader

variable {α β : Type}

instance : Monad Reader where
  pure a := fun t => .found a t
  bind p f := fun t =>
    match p t with
    | .found a rest => f a rest
    | .missed => .missed
    | .broken e => .broken e

/-- The reader that misses every text. -/
def miss : Reader α := fun _ => .missed

/-- The reader that breaks off. -/
def breakOff (e : Failure) : Reader α := fun _ => .broken e

/-- The first of two readers that does not miss. -/
def orElse (p q : Reader α) : Reader α := fun t =>
  match p t with
  | .missed => q t
  | r => r

instance : OrElse (Reader α) where
  orElse p q := p.orElse (q ())

@[simp] theorem pure_apply (a : α) (t : Text) : (pure a : Reader α) t = .found a t := rfl

@[simp] theorem bind_apply (p : Reader α) (f : α → Reader β) (t : Text) :
    (p >>= f) t =
      match p t with
      | .found a rest => f a rest
      | .missed => .missed
      | .broken e => .broken e := rfl

@[simp] theorem orElse_apply (p q : Reader α) (t : Text) :
    (p <|> q) t = match p t with | .missed => q t | r => r := rfl

/-- The first of a list of readers that does not miss. -/
def firstOf : List (Reader α) → Reader α
  | [] => miss
  | p :: others => p <|> firstOf others

/-- Zero or one value. -/
def optional (p : Reader α) : Reader (Option α) := (do return some (← p)) <|> pure none

/-- Values as long as the reader finds one and takes something, at most `bound` of them. -/
def upTo (p : Reader α) : (bound : Nat) → Reader (List α)
  | 0 => pure []
  | bound + 1 => fun t =>
    match p t with
    | .found a rest =>
      if rest.length < t.length then (do return a :: (← upTo p bound)) rest else .found [] t
    | .missed => .found [] t
    | .broken e => .broken e

/-- Values as long as the reader finds one and takes something. Each takes a character or more, so
    the length of the text bounds their number. -/
def many (p : Reader α) : Reader (List α) := fun t => upTo p (t.length + 1) t

/-- The whole text, trimmed, must be what the reader takes. -/
def complete (p : Reader α) : Reader α := fun t =>
  match p t.trim with
  | .found a rest => if Text.isBlank rest then .found a [] else .missed
  | .missed => .missed
  | .broken e => .broken e

/-- A reader that may not miss: the text it misses is refused. -/
def orRefuse (p : Reader α) (refusal : Text → Refusal) : Reader α := fun t =>
  match p t with
  | .missed => .broken (.refused (refusal t))
  | r => r

end Reader

end Klartext
