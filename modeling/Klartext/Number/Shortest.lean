import Klartext.Number.Double

set_option autoImplicit false

/-! # The shortest decimal that reads back

Every decimal strictly between the midpoints to a double's two neighbours reads back as that
double, and so do the midpoints themselves if the significand is even. Of all such decimals the
ones with the fewest digits are taken, of these the nearest to the double, and of two equally near
ones the one whose last digit is even. -/

namespace Klartext

namespace Double

/-- The double `value · unit` with the bounds of its rounding interval, `low · unit` and
    `high · unit`, for `unit = 2^exponent`. -/
structure RoundingInterval where
  low : Nat
  value : Nat
  high : Nat
  exponent : Int
  closed : Bool

/-- The interval of the reals that round to a positive finite double. Below a power of two the
    neighbour is half as far away as above it. -/
def roundingInterval (x : Float) : RoundingInterval where
  low := if significand x = Nat.pow 2 52 && -1074 < exponent x then 4 * significand x - 1
    else 4 * significand x - 2
  value := 4 * significand x
  high := 4 * significand x + 2
  exponent := exponent x - 2
  closed := significand x % 2 == 0

/-- A decimal fraction `digits · 10^exponent`. -/
structure Decimal where
  digits : Nat
  exponent : Int
  deriving Repr, DecidableEq

namespace RoundingInterval

/-- Numerator of the interval's unit, counted in steps of `10^grid`. -/
def unit (i : RoundingInterval) (grid : Int) : Nat :=
  Nat.pow 2 i.exponent.toNat * Nat.pow 10 (-grid).toNat

/-- Denominator of the interval's unit, counted in steps of `10^grid`. -/
def step (i : RoundingInterval) (grid : Int) : Nat :=
  Nat.pow 2 (-i.exponent).toNat * Nat.pow 10 grid.toNat

/-- `digits · 10^grid` lies in the interval. -/
def admits (i : RoundingInterval) (grid : Int) (digits : Nat) : Bool :=
  let point := digits * i.step grid
  let low := i.low * i.unit grid
  let high := i.high * i.unit grid
  if i.closed then low ≤ point && point ≤ high else low < point && point < high

/-- The admitted neighbour of the value on the grid `10^grid`, the nearer one if both are. -/
def onGrid? (i : RoundingInterval) (grid : Int) : Option Decimal :=
  let target := i.value * i.unit grid
  let below := target / i.step grid
  let above := below + 1
  match i.admits grid below, i.admits grid above with
  | true, true =>
    let down := target - below * i.step grid
    let up := above * i.step grid - target
    some ⟨if down < up || (down == up && below % 2 == 0) then below else above, grid⟩
  | true, false => some ⟨below, grid⟩
  | false, true => some ⟨above, grid⟩
  | false, false => none

/-- The decimal exponent of the value's leading digit. The binary logarithm gives it up to one. -/
def leading (i : RoundingInterval) : Int :=
  let guess : Int := ((i.value.log2 : Int) + i.exponent) * 30103 / 100000
  let reached (k : Int) : Bool := i.step k ≤ i.value * i.unit k
  ([guess + 2, guess + 1, guess, guess - 1].find? reached).getD (guess - 2)

/-- The first hit on the grids of one, two, … seventeen digits. -/
def shortest (i : RoundingInterval) : Decimal :=
  let top := i.leading
  ((List.range 17).findSome? fun (n : Nat) => i.onGrid? (top - n)).getD ⟨0, 0⟩

end RoundingInterval

/-- The shortest decimal that reads back as the magnitude of a finite double. -/
def shortest (x : Float) : Decimal :=
  if significand x = 0 then ⟨0, 0⟩ else (roundingInterval x).shortest

end Double

end Klartext
