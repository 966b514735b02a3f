import Klartext.Reader.Words

set_option autoImplicit false

/-! # Enumerations

A list is written `a`, `a und b` or `a, b und c` and closed by a terminator. Items may hold commas,
the word `und` and even the terminator, so nothing but reading the pieces tells where the list is
cut and where it ends. Every occurrence of the terminator is tried as its end, from left to right,
and every comma and every `und` with whitespace around it as a cut: three or more items are tried
first, then two, then one.

A piece that the item reader refuses is no item. The first refusal comes to light only if no way
of cutting works. Any other failure ends the search at once. -/

namespace Klartext

namespace Enumeration

/-! ## Cuts -/

/-- The length of a separator at the front of a text: a comma and the whitespace behind it. -/
def separatorLength : Text → Nat
  | ',' :: t =>
    match (t.takeWhile isBlank).length with
    | 0 => 0
    | n + 1 => n + 2
  | _ => 0

/-- The length of a join at the front of a text: the word `und` with whitespace on both sides. -/
def joinLength (t : Text) : Nat :=
  let before := (t.takeWhile isBlank).length
  match t.dropWhile isBlank with
  | 'u' :: 'n' :: 'd' :: rest =>
    let after := (rest.takeWhile isBlank).length
    if before = 0 || after = 0 then 0 else before + 3 + after
  | _ => 0

/-- The separators of a list's text. -/
def separators (content : Text) : List Span := Text.matchesOf separatorLength content

/-- The joins of a list's text. -/
def joins (content : Text) : List Span := Text.matchesOf joinLength content

/-! ## Remembered pieces -/

/-- A function of two offsets with the values it may be asked for more than once, each of which is
    computed when it is first needed. -/
structure Memo (β : Type) where
  compute : Nat → Nat → β
  rows : List (Nat × Thunk (List (Nat × Thunk β)))

namespace Memo

variable {β : Type}

/-- The memo of a function for given first and second arguments. -/
def of (compute : Nat → Nat → β) (starts stops : List Nat) : Memo β where
  compute := compute
  rows := starts.map fun i => (i, ⟨fun _ => stops.map fun j => (j, ⟨fun _ => compute i j⟩)⟩)

/-- The value at two offsets. -/
def get (m : Memo β) (i j : Nat) : β :=
  match m.rows.lookup i with
  | none => m.compute i j
  | some row =>
    match row.get.lookup j with
    | none => m.compute i j
    | some value => value.get

theorem lookup_map (f : Nat → β) (l : List Nat) (i : Nat) (b : β)
    (h : (l.map fun j => (j, f j)).lookup i = some b) : b = f i := by
  induction l with
  | nil => simp at h
  | cons j l ih =>
    simp only [List.map_cons, List.lookup_cons] at h
    split at h
    · rename_i hij
      rw [beq_iff_eq] at hij
      subst hij
      simpa using h.symm
    · exact ih h

/-- Remembering changes no value. -/
@[simp] theorem get_of (compute : Nat → Nat → β) (starts stops : List Nat) (i j : Nat) :
    (of compute starts stops).get i j = compute i j := by
  unfold get
  split
  · rfl
  · rename_i row hrow
    have hrow : row = ⟨fun _ => stops.map fun j => (j, ⟨fun _ => compute i j⟩)⟩ :=
      lookup_map (fun i => (⟨fun _ => stops.map fun j => (j, ⟨fun _ => compute i j⟩)⟩ :
        Thunk (List (Nat × Thunk β)))) starts i row hrow
    subst hrow
    split
    · rfl
    · rename_i value hvalue
      have hvalue : value = ⟨fun _ => compute i j⟩ :=
        lookup_map (fun j => (⟨fun _ => compute i j⟩ : Thunk β)) stops j value hvalue
      subst hvalue
      rfl

end Memo

/-! ## Search -/

/-- What a search has met so far: the first refusal, and the greatest number of items that it put
    one behind the other. -/
structure Progress where
  refusal : Option Refusal
  depth : Nat
  deriving Repr, DecidableEq

/-- The progress of a search that has not begun. -/
def Progress.none : Progress := ⟨.none, 0⟩

/-- A search that remembers its progress and that any failure but a refusal ends. -/
abbrev Search (α : Type) : Type := StateT Progress (Except Failure) α

variable {α : Type}

/-- The item that a piece holds, if it holds one. -/
def item? : Reading α → Search (Option α)
  | .found a _ => pure (some a)
  | .missed => pure none
  | .broken (.refused r) => do
    modify fun progress => { progress with refusal := progress.refusal.or (some r) }
    pure none
  | .broken e => throw e

/-- The first success among alternatives. -/
def firstSome {β γ : Type} (f : β → Search (Option γ)) : List β → Search (Option γ)
  | [] => pure none
  | b :: others => do
    match ← f b with
    | some c => pure (some c)
    | none => firstSome f others

/-- What comes of a whole search. -/
abbrev Findings (α : Type) : Type := Except Failure (Option α × Progress)

/-- Adds what was found behind an item to the search that found the item. At most `room` items stand
    one behind the other before the last. -/
def resume {β : Type} (room : Nat) : Findings β → Search (Option β)
  | .error e => fun _ => .error e
  | .ok (found, behind) => fun before =>
    if room ≤ behind.depth then .error .tooDeep
    else .ok (found, ⟨before.refusal.or behind.refusal, max before.depth (behind.depth + 1)⟩)

/-- A separator, with the search for the items behind it, which is made once. -/
structure Tail (α : Type) where
  separator : Span
  items : Thunk (Findings (List α))

/-- Items that fill a text from offset `start` to offset `stop`, divided at some of the separators;
    the earlier separators are preferred. There are at least `least` items. -/
def heads (piece : Nat → Nat → Search (Option α)) (room stop least start : Nat) :
    List (Tail α) → Search (Option (List α))
  | [] => do
    if least ≤ 1 then
      match ← piece start stop with
      | some a => pure (some [a])
      | none => pure none
    else pure none
  | tail :: tails => do
    match ← piece start tail.separator.start with
    | none => heads piece room stop least start tails
    | some a =>
      match ← resume room tail.items.get with
      | some others => pure (some (a :: others))
      | none => heads piece room stop least start tails

/-- The separators with the searches behind them; each search uses the later ones. -/
def tailsOf (piece : Nat → Nat → Search (Option α)) (room stop : Nat) : List Span → List (Tail α)
  | [] => []
  | separator :: separators =>
    let later := tailsOf piece room stop separators
    ⟨separator, ⟨fun _ => (heads piece room stop 1 separator.stop later).run .none⟩⟩ :: later

/-- The items of a list's text, which is `length` characters long. -/
def items (piece : Nat → Nat → Search (Option α)) (room : Nat) (separators joins : List Span)
    (length : Nat) : Search (Option (List α)) := do
  let three ← firstSome (fun join => do
    let before := separators.filter fun separator => separator.stop ≤ join.start
    match ← heads piece room join.start 2 0 (tailsOf piece room join.start before) with
    | none => pure none
    | some others =>
      match ← piece join.stop length with
      | some a => pure (some (others ++ [a]))
      | none => pure none) (if separators.isEmpty then [] else joins)
  match three with
  | some found => pure (some found)
  | none =>
    let two ← firstSome (fun join => do
      match ← piece 0 join.start with
      | none => pure none
      | some a =>
        match ← piece join.stop length with
        | some b => pure (some [a, b])
        | none => pure none) joins
    match two with
    | some found => pure (some found)
    | none =>
      match ← piece 0 length with
      | some a => pure (some [a])
      | none => pure none

/-- The items of a text that is a list and nothing else. -/
def itemsOf (item : Reader α) (room : Nat) (content : Text) : Search (Option (List α)) :=
  let separators := separators content
  let joins := joins content
  let pieces := Memo.of (fun start stop => item.complete (Text.slice content start stop))
    (0 :: (separators.map Span.stop ++ joins.map Span.stop))
    (content.length :: (separators.map Span.start ++ joins.map Span.start))
  items (fun start stop => item? (pieces.get start stop)) room separators joins content.length

end Enumeration

/-- A list of items up to a terminator, which is taken too. -/
def Reader.listUntil {α : Type} (terminator : Text) (item : Reader α) (room : Nat) :
    Reader (List α) := fun t =>
  let search := Enumeration.firstSome
    (fun index => do
      match ← Enumeration.itemsOf item room (t.take index) with
      | some found => pure (some (found, index))
      | none => pure none)
    (Text.occurrences terminator t)
  match search.run .none with
  | .ok (some (found, index), _) => .found found (t.drop (index + terminator.length))
  | .ok (none, ⟨some refusal, _⟩) => .broken (.refused refusal)
  | .ok (none, ⟨none, _⟩) => .missed
  | .error e => .broken e

/-- Values up to a closing phrase, which is taken too. Whitespace is skipped before every value and
    before the phrase; where neither stands, the whole is no match. -/
def Reader.manyUntil {α : Type} (p : Reader α) (closing : String) : Reader (List α) := fun t =>
  go (t.length + 1) t
where
  /-- Every value takes a character or more, so `bound` values are never exceeded. -/
  go : (bound : Nat) → Reader (List α)
    | 0 => Reader.miss
    | bound + 1 => do
      let _ ← Reader.blanks
      (do Reader.phrase closing; return []) <|> (do return (← p) :: (← go bound))

end Klartext
