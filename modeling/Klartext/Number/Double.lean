set_option autoImplicit false

/-! # Double precision numbers as dyadic fractions

A finite double is a significand below 2⁵³ times a power of two, with exponent at least -1074.
This file reads that form off the bits and goes back from an exact fraction to the nearest double,
a half going to the neighbour with the even significand. -/

namespace Klartext

namespace Double

/-- The number of a double's bit pattern. -/
def bits (x : Float) : Nat := x.toBits.toNat

/-- The sign bit is set; so it is for -0. -/
def isNegative (x : Float) : Bool := Nat.pow 2 63 ≤ bits x

/-- The biased exponent field. -/
def exponentField (x : Float) : Nat := bits x / Nat.pow 2 52 % Nat.pow 2 11

/-- The fraction field. -/
def fractionField (x : Float) : Nat := bits x % Nat.pow 2 52

/-- The significand of a finite double, its leading bit included. -/
def significand (x : Float) : Nat :=
  if exponentField x = 0 then fractionField x else fractionField x + Nat.pow 2 52

/-- The power of two by which the significand of a finite double is scaled. -/
def exponent (x : Float) : Int :=
  if exponentField x = 0 then -1074 else (exponentField x : Int) - 1075

/-- Neither infinite nor undefined. -/
def isFinite (x : Float) : Bool := exponentField x < 2047

/-- The exact magnitude of a finite double if it is a whole number. -/
def wholeMagnitude? (x : Float) : Option Nat :=
  if !isFinite x then none
  else match exponent x with
    | .ofNat e => some (significand x * Nat.pow 2 e)
    | .negSucc e =>
      let step := Nat.pow 2 (e + 1)
      if significand x % step = 0 then some (significand x / step) else none

/-- Not a number. -/
def undefined : Float := 0.0 / 0.0

/-- Positive infinity. -/
def infinite : Float := 1.0 / 0.0

/-! ## From exact fractions -/

/-- The quotient rounded to the nearest integer, a half to the even one. -/
def roundedQuotient (num den : Nat) : Nat :=
  let quotient := num / den
  let twice := 2 * (num % den)
  if den < twice || (twice == den && quotient % 2 == 1) then quotient + 1 else quotient

/-- The exponent at which `num / den` has a significand of 53 bits, or the least exponent if the
    fraction is too small for that. -/
def scale (num den : Nat) : Int :=
  let guess : Int := (num.log2 : Int) - (den.log2 : Int) - 52
  -- `num / den` lies between 2^51 and 2^53 times the power of two of the guess
  let full : Bool :=
    match guess with
    | .ofNat e => den * Nat.pow 2 (e + 52) ≤ num
    | .negSucc e => den * Nat.pow 2 52 ≤ num * Nat.pow 2 (e + 1)
  max (if full then guess else guess - 1) (-1074)

/-- The double nearest to the fraction `num / den`, infinite if that is beyond the largest one.
    The significand and the shifted exponent are added rather than joined, so that a significand
    rounded up to 2⁵³ moves on to the next exponent. -/
def nearest (num den : Nat) : Float :=
  if num = 0 || den = 0 then 0.0
  else
    let e := scale num den
    let significand :=
      match e with
      | .ofNat n => roundedQuotient num (den * Nat.pow 2 n)
      | .negSucc n => roundedQuotient (num * Nat.pow 2 (n + 1)) den
    let pattern := (e + 1074).toNat * Nat.pow 2 52 + significand
    if 2047 * Nat.pow 2 52 ≤ pattern then infinite else Float.ofBits (UInt64.ofNat pattern)

/-- The double nearest to `mantissa · 10^exponent`. -/
def nearestDecimal (mantissa : Nat) : Int → Float
  | .ofNat e => nearest (mantissa * Nat.pow 10 e) 1
  | .negSucc e => nearest mantissa (Nat.pow 10 (e + 1))

/-- The double nearest to an integer, if the integer is not too large for one. -/
def ofInt? (n : Int) : Option Float :=
  let magnitude := nearest n.natAbs 1
  if isFinite magnitude then some (if n < 0 then -magnitude else magnitude) else none

end Double

end Klartext
