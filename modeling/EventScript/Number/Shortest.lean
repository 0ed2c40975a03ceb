import EventScript.Number.Binary

/-!
The shortest decimal that stands for a floating-point number.

The reals that round to a number form an interval around it, with its ends if the mantissa is even.
Among the decimals in the interval those with the fewest digits are taken, and of these the one closest
to the number; of two that are equally close it is the one with the even last digit.
-/

namespace EventScript.Number

set_option autoImplicit false

/-- The decimal `digits * 10 ^ exponent`. -/
structure Decimal where
  digits : Nat
  exponent : Int
deriving DecidableEq, Repr

/-- A positive number as a quotient. -/
structure Ratio where
  num : Nat
  den : Nat

namespace Ratio

def ofScaled (mantissa : Nat) (base : Nat) (exponent : Int) : Ratio :=
  if 0 ≤ exponent then ⟨mantissa * Nat.pow base exponent.toNat, 1⟩
  else ⟨mantissa, Nat.pow base (-exponent).toNat⟩

def lt (a b : Ratio) : Bool := decide (a.num * b.den < b.num * a.den)

def le (a b : Ratio) : Bool := decide (a.num * b.den ≤ b.num * a.den)

/-- How far two numbers are apart. -/
def distance (a b : Ratio) : Ratio :=
  let x := a.num * b.den
  let y := b.num * a.den
  ⟨if x ≤ y then y - x else x - y, a.den * b.den⟩

end Ratio

namespace Decimal

def ratio (d : Decimal) : Ratio := Ratio.ofScaled d.digits 10 d.exponent

/-- A ten in place of the only digit is a one in the place before. -/
def carried (d : Decimal) : Decimal := if d.digits = 10 then ⟨1, d.exponent + 1⟩ else d

end Decimal

/-- The reals that round to `mantissa * 2 ^ exponent`. -/
structure Rounding where
  low : Ratio
  high : Ratio
  closed : Bool

def rounding (mantissa : Nat) (exponent : Int) : Rounding where
  low :=
    let below := if mantissa = twoTo 52 ∧ exponent ≠ leastExponent then 1 else 2
    Ratio.ofScaled (4 * mantissa - below) 2 (exponent - 2)
  high := Ratio.ofScaled (4 * mantissa + 2) 2 (exponent - 2)
  closed := mantissa % 2 = 0

def Rounding.holds (interval : Rounding) (r : Ratio) : Bool :=
  if interval.closed then interval.low.le r && r.le interval.high
  else interval.low.lt r && r.lt interval.high

/-- The least `e` with `r < 10 ^ e`. -/
def decimalPlaces (r : Ratio) : Int :=
  let guess := ((r.num.log2 : Int) - r.den.log2) * 30103 / 100000
  ([guess - 1, guess, guess + 1, guess + 2].find? fun e => r.lt (Ratio.ofScaled 1 10 e)).getD
    (guess + 3)

/-- The better of the two neighbours of `r` with the last digit at `10 ^ exponent`, if either lies in the
interval. -/
def neighbour? (interval : Rounding) (r : Ratio) (exponent : Int) : Option Decimal :=
  let grid := Ratio.ofScaled 1 10 exponent
  let lower : Decimal := ⟨r.num * grid.den / (r.den * grid.num), exponent⟩
  let upper : Decimal := ⟨lower.digits + 1, exponent⟩
  match interval.holds lower.ratio && decide (0 < lower.digits), interval.holds upper.ratio with
  | false, false => none
  | true, false => some lower
  | false, true => some upper
  | true, true =>
    let down := lower.ratio.distance r
    let up := upper.ratio.distance r
    if down.lt up then some lower
    else if up.lt down then some upper
    else some (if lower.digits % 2 = 0 then lower else upper)

/-- Seventeen digits always suffice. -/
def digitCounts : List Nat := (List.range 17).map (· + 1)

/-- The shortest decimal that stands for `mantissa * 2 ^ exponent`, which is not zero. -/
def shortest (mantissa : Nat) (exponent : Int) : Decimal :=
  let r := Ratio.ofScaled mantissa 2 exponent
  let interval := rounding mantissa exponent
  let places := decimalPlaces r
  ((digitCounts.findSome? fun (count : Nat) => neighbour? interval r (places - count)).getD
    ⟨0, 0⟩).carried

end EventScript.Number
