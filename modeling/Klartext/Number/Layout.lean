import Klartext.Number.Shortest
import Klartext.Text.Blank

set_option autoImplicit false

/-! # Number texts

How a number is written and read. The digits come from `Double.shortest`; what remains are the
decisions of the format, gathered in one `Layout`: which magnitudes are written with all their
places, how an exponent looks, and the words for what is no finite number. -/

namespace Klartext

/-- The decisions of a number format that the digits leave open. -/
structure Layout where
  /-- Smallest decimal exponent that is written without an exponent. -/
  lowest : Int
  /-- Largest decimal exponent that is written without an exponent. -/
  highest : Int
  /-- Written behind the places of a whole number. -/
  wholeEnd : Text
  /-- Separates the whole part from the fraction. -/
  point : Char
  /-- Introduces the exponent. -/
  mark : Char
  /-- Least number of exponent digits. -/
  exponentWidth : Nat
  /-- Word for an infinite magnitude. -/
  infinite : Text
  /-- Word for an undefined number. -/
  undefined : Text

namespace Layout

/-- Magnitudes from 10⁻⁴ to below 10¹⁶ are written with all their places, whole ones with a zero
    behind the point; the exponent has a sign and at least two digits. -/
def technical : Layout where
  lowest := -4
  highest := 15
  wholeEnd := ['.', '0']
  point := '.'
  mark := 'e'
  exponentWidth := 2
  infinite := ['i', 'n', 'f']
  undefined := ['n', 'a', 'n']

/-! ## Writing -/

/-- A natural number in decimal, padded on the left with zeros to `width` digits. -/
def padded (width n : Nat) : Text :=
  let digits := Nat.toDigits 10 n
  List.replicate (width - digits.length) '0' ++ digits

/-- `digits` with the point behind the place number `place`. -/
def positional (l : Layout) (digits : Text) : (place : Int) → Text
  | .negSucc n => '0' :: l.point :: (List.replicate (n + 1) '0' ++ digits)
  | .ofNat 0 => '0' :: l.point :: digits
  | .ofNat (n + 1) =>
    if digits.length ≤ n + 1 then
      digits ++ List.replicate (n + 1 - digits.length) '0' ++ l.wholeEnd
    else digits.take (n + 1) ++ l.point :: digits.drop (n + 1)

/-- `digits` with the point behind the first of them, followed by the exponent. -/
def scientific (l : Layout) (digits : Text) (exponent : Int) : Text :=
  let fraction := digits.drop 1
  digits.take 1 ++ (if fraction.isEmpty then [] else l.point :: fraction)
    ++ l.mark :: (if exponent < 0 then '-' else '+') :: padded l.exponentWidth exponent.natAbs

/-- A decimal fraction without its sign; trailing zeros of its digits do not show. -/
def magnitude (l : Layout) (d : Double.Decimal) : Text :=
  let all := Nat.toDigits 10 d.digits
  let place : Int := all.length + d.exponent
  let digits := (all.reverse.dropWhile (· == '0')).reverse
  if digits.isEmpty then l.positional ['0'] 1
  else if l.lowest < place && place ≤ l.highest + 1 then l.positional digits place
  else l.scientific digits (place - 1)

/-- A double as text. -/
def write (l : Layout) (x : Float) : Text :=
  let sign := if Double.isNegative x then ['-'] else []
  if Double.isFinite x then sign ++ l.magnitude (Double.shortest x)
  else if Double.fractionField x = 0 then sign ++ l.infinite
  else l.undefined

/-! ## Reading -/

/-- The number that a run of ASCII digits denotes. -/
def natOf (digits : Text) : Nat := digits.foldl (fun n c => 10 * n + (c.toNat - '0'.toNat)) 0

/-- The exponent that a text denotes: nothing at all, or the mark, a sign or none, and digits. -/
def exponent? (l : Layout) : Text → Option Int
  | [] => some 0
  | c :: rest =>
    if c != l.mark then none
    else
      let signed (digits : Text) : Option Nat :=
        if digits.isEmpty || !digits.all Char.isDigit then none else some (natOf digits)
      match rest with
      | '-' :: digits => (signed digits).map fun n => -(n : Int)
      | '+' :: digits => (signed digits).map fun n => (n : Int)
      | digits => (signed digits).map fun n => (n : Int)

/-- The magnitude that a text denotes. -/
def readMagnitude? (l : Layout) (t : Text) : Option Float :=
  if t = l.infinite then some Double.infinite
  else if t = l.undefined then some Double.undefined
  else
    let whole := t.takeWhile Char.isDigit
    let afterWhole := t.dropWhile Char.isDigit
    let (fraction, tail) :=
      match afterWhole with
      | c :: rest =>
        if c == l.point then (rest.takeWhile Char.isDigit, rest.dropWhile Char.isDigit)
        else ([], afterWhole)
      | [] => ([], [])
    if whole.isEmpty && fraction.isEmpty then none
    else (l.exponent? tail).map fun e =>
      Double.nearestDecimal (natOf (whole ++ fraction)) (e - fraction.length)

/-- The double that a text denotes, if it is a number text. -/
def read? (l : Layout) : Text → Option Float
  | '-' :: t => (l.readMagnitude? t).map fun x => -x
  | t => l.readMagnitude? t

end Layout

/-- The text of a number with its exact type showing: `1.0`, `0.1`, `1e+16`, `inf`. -/
def technicalText (x : Float) : String := String.ofList (Layout.technical.write x)

/-- The text of a number as a program shows it: a whole number by all its digits and without a
    point, zero without a sign, any other number like `technicalText`. -/
def numberText (x : Float) : String :=
  match Double.wholeMagnitude? x with
  | some 0 => "0"
  | some n => (if Double.isNegative x then "-" else "") ++ toString n
  | none => technicalText x

end Klartext
