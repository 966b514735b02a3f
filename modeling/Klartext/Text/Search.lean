import Klartext.Text.Blank

set_option autoImplicit false

/-! # Searching in text

Two kinds of search. A *literal* is looked for at every position, so occurrences may overlap
(`splitFirst?`, `occurrences`). A *recognizer*, which says how many characters it matches at the
start of a text, is run from left to right without overlap (`matchesOf`). -/

namespace Klartext

namespace Text

/-- The text before and after the first occurrence of `needle`. -/
def splitFirst? (needle : Text) : Text → Option (Text × Text)
  | [] => if needle.isEmpty then some ([], []) else none
  | c :: rest =>
    if needle.isPrefixOf (c :: rest) then some ([], (c :: rest).drop needle.length)
    else (splitFirst? needle rest).map fun parts => (c :: parts.1, parts.2)

/-- `needle` stands somewhere in the text. -/
def holds (needle t : Text) : Bool := (splitFirst? needle t).isSome

/-- The offset of the first occurrence of `needle`. -/
def indexOf? (needle t : Text) : Option Nat :=
  (splitFirst? needle t).map fun parts => parts.1.length

/-- All offsets, counted from `offset`, at which `needle` stands; occurrences may overlap, and the
    empty text stands at every offset, the end included. -/
def occurrencesFrom (needle : Text) (offset : Nat) : Text → List Nat
  | [] => if needle.isEmpty then [offset] else []
  | c :: rest =>
    if needle.isPrefixOf (c :: rest) then offset :: occurrencesFrom needle (offset + 1) rest
    else occurrencesFrom needle (offset + 1) rest

/-- All offsets at which `needle` stands, from left to right. -/
def occurrences (needle t : Text) : List Nat := occurrencesFrom needle 0 t

/-- The characters from offset `start` up to offset `stop`. -/
def slice (t : Text) (start stop : Nat) : Text := (t.drop start).take (stop - start)

/-- The parts between the occurrences of a character; one part if there are none. -/
def splitOn (separator : Char) : Text → List Text
  | [] => [[]]
  | c :: rest =>
    match splitOn separator rest with
    | [] => [[]]
    | part :: others => if c = separator then [] :: part :: others else (c :: part) :: others

end Text

/-- A stretch of a text, from offset `start` up to but not including offset `stop`. -/
structure Span where
  start : Nat
  stop : Nat
  deriving Repr, DecidableEq

namespace Text

/-- The matches of a recognizer from left to right. `length t` is the number of characters that
    match at the start of `t`, zero if none do; after a match the search goes on behind it. The
    first `skip` characters belong to an earlier match. -/
def matchesFrom (length : Text → Nat) (skip offset : Nat) : Text → List Span
  | [] => []
  | c :: rest =>
    match skip with
    | skip + 1 => matchesFrom length skip (offset + 1) rest
    | 0 =>
      match length (c :: rest) with
      | 0 => matchesFrom length 0 (offset + 1) rest
      | n + 1 => ⟨offset, offset + (n + 1)⟩ :: matchesFrom length n (offset + 1) rest

/-- The matches of a recognizer, from left to right and without overlap. -/
def matchesOf (length : Text → Nat) (t : Text) : List Span := matchesFrom length 0 0 t

end Text

end Klartext
