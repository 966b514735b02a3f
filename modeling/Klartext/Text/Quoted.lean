import Klartext.Text.Blank
import Klartext.Text.Printable

set_option autoImplicit false

/-! # Quoted display of text

Syntax trees and messages show text between quotation marks, so that its ends and its invisible
characters can be seen. Single marks are used unless the text holds a single mark and no double
one. Inside, the mark in use and the backslash are preceded by a backslash, line feed, carriage
return and tabulator have letters, and every other character that is not printable is written by
its code point in the shortest of three hexadecimal forms. -/

namespace Klartext

namespace Quoted

/-- A number in lower-case hexadecimal digits, padded with zeros to `width` digits. -/
def hex (width n : Nat) : Text :=
  let digits := Nat.toDigits 16 n
  List.replicate (width - digits.length) '0' ++ digits

/-- A character as it stands between two marks. -/
def escape (mark c : Char) : Text :=
  if c == mark || c == '\\' then ['\\', c]
  else if c == '\n' then ['\\', 'n']
  else if c == '\r' then ['\\', 'r']
  else if c == '\t' then ['\\', 't']
  else if isPrintable c then [c]
  else if c.toNat ≤ 0xFF then '\\' :: 'x' :: hex 2 c.toNat
  else if c.toNat ≤ 0xFFFF then '\\' :: 'u' :: hex 4 c.toNat
  else '\\' :: 'U' :: hex 8 c.toNat

/-- The mark for a text: the single one unless only the double one is free. -/
def markFor (t : Text) : Char := if t.contains '\'' && !t.contains '\"' then '\"' else '\''

/-- A text between marks. -/
def encode (t : Text) : Text :=
  markFor t :: t.flatMap (escape (markFor t)) ++ [markFor t]

end Quoted

/-- A string between quotation marks, with its invisible characters made visible. -/
def quoted (s : String) : String := String.ofList (Quoted.encode s.toList)

end Klartext
