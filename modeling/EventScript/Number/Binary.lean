/-!
Floating-point numbers as exact values.

A finite number of double precision is `mantissa * 2 ^ exponent` with a sign. `unpack` takes a number
apart, and `nearest` goes the other way: from a quotient of natural numbers to the number closest to
it, where a quotient in the middle goes to the even mantissa.
-/

namespace EventScript.Number

set_option autoImplicit false

/-- A floating-point number taken apart. -/
inductive Unpacked where
  | undefined
  | infinite (negative : Bool)
  | finite (negative : Bool) (mantissa : Nat) (exponent : Int)
deriving DecidableEq, Repr

/-- The least exponent, that of the numbers closest to zero. -/
def leastExponent : Int := -1074

/-- The greatest exponent of a finite number. -/
def greatestExponent : Int := 971

/-- The power of two, `2 ^ n`. -/
def twoTo (n : Nat) : Nat := Nat.pow 2 n

/-- The power of ten, `10 ^ n`. -/
def tenTo (n : Nat) : Nat := Nat.pow 10 n

def unpack (x : Float) : Unpacked :=
  let bits := x.toBits.toNat
  let negative := decide (twoTo 63 ≤ bits)
  let scale : Nat := bits / twoTo 52 % twoTo 11
  let fraction : Nat := bits % twoTo 52
  if scale = 2047 then
    if fraction = 0 then .infinite negative else .undefined
  else if scale = 0 then .finite negative fraction leastExponent
  else .finite negative (twoTo 52 + fraction) ((scale : Int) - 1075)

private def signBit (negative : Bool) : Nat := if negative then twoTo 63 else 0

def infinity (negative : Bool) : Float :=
  Float.ofBits (UInt64.ofNat (signBit negative + 2047 * twoTo 52))

def undefined : Float := Float.ofBits (UInt64.ofNat (2047 * twoTo 52 + twoTo 51))

/-- The number with a mantissa below `2 ^ 53`, which is at least `2 ^ 52` unless the exponent is the
least one. -/
private def pack (negative : Bool) (mantissa : Nat) (exponent : Int) : Float :=
  if greatestExponent < exponent then infinity negative
  else
    let scale := if mantissa < twoTo 52 then 0 else (exponent + 1075).toNat
    Float.ofBits (UInt64.ofNat (signBit negative + scale * twoTo 52 + mantissa % twoTo 52))

/-- The quotient rounded to a whole number; one in the middle goes to the even neighbour. -/
def roundDiv (num den : Nat) : Nat :=
  let q := num / den
  let r := num % den
  if den < 2 * r ∨ (2 * r = den ∧ q % 2 = 1) then q + 1 else q

/-- `num / den * 2 ^ -exponent` as a quotient. -/
def scaleDown (num den : Nat) (exponent : Int) : Nat × Nat :=
  if 0 ≤ exponent then (num, den * twoTo exponent.toNat) else (num * twoTo (-exponent).toNat, den)

/-- The number closest to a quotient; beyond the range of finite numbers it is infinite. -/
def nearest (negative : Bool) (num den : Nat) : Float :=
  if num = 0 then pack negative 0 leastExponent
  else
    let guess := (num.log2 : Int) - den.log2 - 52
    let (n, d) := scaleDown num den guess
    let exponent := max leastExponent (if n / d < twoTo 52 then guess - 1 else guess)
    let (n, d) := scaleDown num den exponent
    let mantissa := roundDiv n d
    if mantissa = twoTo 53 then pack negative (twoTo 52) (exponent + 1)
    else pack negative mantissa exponent

def isUndefined (x : Float) : Bool := unpack x == .undefined

/-- The number itself, if it is finite. -/
def finite? (x : Float) : Option Float :=
  match unpack x with
  | .finite .. => some x
  | _ => none

/-- The number closest to a whole number, if there is a finite one. -/
def ofInt? (n : Int) : Option Float := finite? (nearest (decide (n < 0)) n.natAbs 1)

/-- The order of a whole number and a floating-point number, without rounding; none if the second one
is no number. -/
def compareInt (n : Int) (x : Float) : Option Ordering :=
  match unpack x with
  | .undefined => none
  | .infinite negative => some (if negative then .gt else .lt)
  | .finite negative mantissa exponent =>
    let m : Int := if negative then -(mantissa : Int) else mantissa
    some (if 0 ≤ exponent then compare n (m * twoTo exponent.toNat)
      else compare (n * twoTo (-exponent).toNat) m)

end EventScript.Number
