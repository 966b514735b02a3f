import Klartext.Text.Search

set_option autoImplicit false

/-! # Places in source text

A place is an offset into the source, counted in code points, or the line and column of that
offset, both counted from one. Only a line feed ends a line. This file finds the place of an
unread rest and shows what stands at a place: a short quotation, and the lines around it with a
caret. What is shown is defined for places outside of the source too. -/

namespace Klartext

namespace Place

/-- The lines of a text, without the line feeds between them. -/
def lines (source : Text) : List Text := Text.splitOn '\n' source

/-- The offset of an unread rest in its source: where it begins if it ends the source, otherwise
    its first occurrence, and the end of the source if it does not occur. -/
def offsetOf (source rest : Text) : Nat :=
  if rest.isSuffixOf source then source.length - rest.length
  else (Text.indexOf? rest source).getD source.length

/-- The line of an offset: one more than the line feeds before it. -/
def lineAt (source : Text) (offset : Nat) : Nat := (source.take offset).count '\n' + 1

/-- The column of an offset: one more than the characters between it and the line feed before. -/
def columnAt (source : Text) (offset : Nat) : Nat :=
  ((source.take offset).reverse.takeWhile (· != '\n')).length + 1

/-- The line of a number. Numbers below one count back from the last line, which is number zero. -/
def line? (source : Text) (line : Int) : Option Text :=
  if 0 < line then (lines source)[(line - 1).toNat]? else (lines source).reverse[(-line).toNat]?

/-- Up to twenty-one characters of a line from a column on. A column before the first is like the
    first one, but the piece ends where it would; if that is before the line, it ends as far before
    the end of the line. -/
def pieceAt (text : Text) (column : Int) : Text :=
  let stop := column + 20
  Text.slice text (column - 1).toNat (if stop < 0 then text.length + stop else stop).toNat

/-- What stands at a line and column: a piece of the line without whitespace at the ends, in single
    quotation marks, or words for the end of the line or of the text. -/
def found (source : Text) (line column : Int) : String :=
  match line? source line with
  | none => "end of input"
  | some text =>
    let piece := if column ≤ text.length then Text.trim (pieceAt text column) else []
    if piece.isEmpty then "end of line" else s!"'{String.ofList piece}'"

/-- A number, padded on the left with spaces to four characters. -/
def lineNumber (n : Nat) : Text :=
  let digits := Nat.toDigits 10 n
  List.replicate (4 - digits.length) ' ' ++ digits

/-- A line with its number. -/
def numbered (n : Nat) (text : Text) : Text := lineNumber n ++ ':' :: ' ' :: text

/-- The line with the caret for a column. -/
def caret (column : Int) : Text :=
  List.replicate (6 + (column - 1).toNat) ' ' ++ "^ Error here".toList

/-- The lines from `radius` before to `radius` after a line, each with its number, and the caret
    below that line. -/
def contextLines (source : Text) (line column radius : Int) : List Text :=
  let first := (line - radius - 1).toNat
  let shown := ((lines source).take (line + radius).toNat).drop first
  (shown.zipIdx first).flatMap fun (text, index) =>
    numbered (index + 1) text :: if (index : Int) + 1 = line then [caret column] else []

/-- The lines around a place as one text. -/
def context (source : Text) (line column radius : Int) : String :=
  String.ofList (Text.joinWith ['\n'] (contextLines source line column radius))

end Place

end Klartext
