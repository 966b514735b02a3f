import Klartext.Number.Layout
import Klartext.Text.Quoted

set_option autoImplicit false

/-! # Values

What a program computes with: numbers, truth values, strings and the empty value `nix`. This file
says when two values are equal, which ones count as true, and how a value is shown to the reader
of a program's output. -/

namespace Klartext

/-- A value of a running program. -/
inductive Value where
  | number (x : Float)
  | boolean (b : Bool)
  | string (s : String)
  | null

namespace Value

/-- The type name of a value in messages. -/
def typeName : Value → String
  | .number _ => "Zahl"
  | .boolean _ => "Wahrheitswert"
  | .string _ => "Zeichenkette"
  | .null => "nix"

/-- `falsch` and `nix` are false, every other value is true. -/
def isTruthy : Value → Bool
  | .null => false
  | .boolean b => b
  | _ => true

/-- Values of different types are never equal, and `nix` equals itself. Numbers are equal as
    numbers: zero has one value, and an undefined number differs from itself. -/
def equals : Value → Value → Bool
  | .number x, .number y => x == y
  | .boolean a, .boolean b => a == b
  | .string s, .string t => s == t
  | .null, .null => true
  | _, _ => false

/-- A value as a program shows it. -/
def shown : Value → String
  | .number x => numberText x
  | .boolean true => "wahr"
  | .boolean false => "falsch"
  | .string s => s
  | .null => "nix"

end Value

end Klartext
