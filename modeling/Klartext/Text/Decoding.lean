import Klartext.Text.Quoted

set_option autoImplicit false

/-! # Bytes to text

A source file is UTF-8. A sequence that is not is reported with the bytes it spans and what is
wrong with it: a byte that starts no sequence, a byte that does not continue one, or an end of
data within one. Line ends of all three customs become line feeds. -/

namespace Klartext

namespace Decoding

/-- What is wrong with a byte sequence. -/
inductive Defect where
  | startByte
  | continuationByte
  | endOfData
  deriving Repr, DecidableEq

/-- The wording of a defect. -/
def Defect.message : Defect → String
  | .startByte => "invalid start byte"
  | .continuationByte => "invalid continuation byte"
  | .endOfData => "unexpected end of data"

/-- A byte sequence that is not UTF-8: its offset, its length, its first byte and its defect. -/
structure Fault where
  offset : Nat
  length : Nat
  lead : Nat
  defect : Defect
  deriving Repr, DecidableEq

/-- The wording of a fault. -/
def Fault.message (f : Fault) : String :=
  let what := f.defect.message
  if f.length = 1 then
    let byte := String.ofList (Quoted.hex 2 f.lead)
    s!"'utf-8' codec can't decode byte 0x{byte} in position {f.offset}: {what}"
  else
    let last := f.offset + f.length - 1
    s!"'utf-8' codec can't decode bytes in position {f.offset}-{last}: {what}"

/-- A sequence under way: where it began, its first byte, the number of bytes read and still
    missing, the bounds of the next byte, and the code point collected so far. -/
structure Sequence where
  offset : Nat
  lead : Nat
  length : Nat
  missing : Nat
  low : Nat
  high : Nat
  code : Nat

/-- The sequence of more than one byte that a byte starts. Overlong forms, surrogates and code
    points above U+10FFFF are excluded by the bounds of the second byte. -/
def Sequence.start? (offset byte : Nat) : Option Sequence :=
  if byte < 0xC2 then none
  else if byte < 0xE0 then some ⟨offset, byte, 1, 1, 0x80, 0xBF, byte - 0xC0⟩
  else if byte < 0xF0 then
    let low := if byte = 0xE0 then 0xA0 else 0x80
    let high := if byte = 0xED then 0x9F else 0xBF
    some ⟨offset, byte, 1, 2, low, high, byte - 0xE0⟩
  else if byte < 0xF5 then
    let low := if byte = 0xF0 then 0x90 else 0x80
    let high := if byte = 0xF4 then 0x8F else 0xBF
    some ⟨offset, byte, 1, 3, low, high, byte - 0xF0⟩
  else none

/-- The sequence with one more byte, which is within the bounds. -/
def Sequence.extend (s : Sequence) (byte : Nat) : Sequence :=
  { s with
    length := s.length + 1
    missing := s.missing - 1
    low := 0x80
    high := 0xBF
    code := s.code * 64 + (byte - 0x80) }

/-- Decodes bytes from an offset on, given the sequence under way and the characters so far, the
    latest first. -/
def decodeFrom (offset : Nat) (current : Option Sequence) (done : Text) :
    List UInt8 → Except Fault Text
  | [] =>
    match current with
    | none => .ok done.reverse
    | some s => .error ⟨s.offset, s.length, s.lead, .endOfData⟩
  | byte :: rest =>
    match current with
    | none =>
      if byte.toNat < 0x80 then decodeFrom (offset + 1) none (Char.ofNat byte.toNat :: done) rest
      else match Sequence.start? offset byte.toNat with
        | some s => decodeFrom (offset + 1) (some s) done rest
        | none => .error ⟨offset, 1, byte.toNat, .startByte⟩
    | some s =>
      if s.low ≤ byte.toNat && byte.toNat ≤ s.high then
        let longer := s.extend byte.toNat
        if longer.missing = 0 then
          decodeFrom (offset + 1) none (Char.ofNat longer.code :: done) rest
        else decodeFrom (offset + 1) (some longer) done rest
      else .error ⟨s.offset, s.length, s.lead, .continuationByte⟩

end Decoding

/-- The text that bytes encode in UTF-8, or the first fault. -/
def decodeBytes (bytes : List UInt8) : Except Decoding.Fault Text :=
  Decoding.decodeFrom 0 none [] bytes

namespace Text

/-- The text with every line end, be it a carriage return, a line feed or both, as a line feed. -/
def unifyLineEnds : Text → Text
  | [] => []
  | '\r' :: '\n' :: rest => '\n' :: unifyLineEnds rest
  | c :: rest => (if c = '\r' then '\n' else c) :: unifyLineEnds rest

end Text

end Klartext
