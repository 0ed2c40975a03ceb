import EventScript.Number.Shortest
import EventScript.Text.Digit

/-!
Numbers as text.

`floatText` writes the shortest decimal of a floating-point number in a given layout; `plainLayout` is
the one that scripts and reports use. `fixedText` writes a fixed number of places.
-/

namespace EventScript.Number

set_option autoImplicit false

/-- How a decimal is laid out. A number is written positionally if its first digit stands at a power of
ten from `lowest` up to, but not including, `highest`; else with an exponent of at least
`exponentDigits` digits and a sign. -/
structure Layout where
  lowest : Int
  highest : Int
  exponentDigits : Nat
  undefined : String
  infinity : String

/-- Positional from one ten-thousandth to below ten to the sixteenth, always with a digit behind the
point. -/
def plainLayout : Layout := ⟨-4, 16, 2, "nan", "inf"⟩

/-- The decimal digits of a whole number, with a sign if it is negative. -/
def intText (n : Int) : String :=
  String.ofList ((if n < 0 then ['-'] else []) ++ Text.digitsOfNat n.natAbs)

private def digitsOf (n : Nat) : List Char := Text.digitsOfNat n

private def noughts (n : Nat) : List Char := List.replicate n '0'

/-- Digits with the point so many places behind the first of them. -/
private def positional (digits : List Char) (point : Int) : List Char :=
  if point ≤ 0 then ['0', '.'] ++ noughts (-point).toNat ++ digits
  else if (digits.length : Int) ≤ point then
    digits ++ noughts (point.toNat - digits.length) ++ ['.', '0']
  else digits.take point.toNat ++ ['.'] ++ digits.drop point.toNat

private def exponential (layout : Layout) (digits : List Char) (exponent : Int) : List Char :=
  let size := digitsOf exponent.natAbs
  digits.take 1 ++ (if digits.length ≤ 1 then [] else '.' :: digits.drop 1) ++
    ['e', if exponent < 0 then '-' else '+'] ++ noughts (layout.exponentDigits - size.length) ++ size

private def decimalText (layout : Layout) (d : Decimal) : List Char :=
  let digits := digitsOf d.digits
  let point := d.exponent + digits.length
  if layout.lowest < point ∧ point ≤ layout.highest then positional digits point
  else exponential layout digits (point - 1)

private def signText (negative : Bool) : List Char := if negative then ['-'] else []

/-- A floating-point number in a layout. -/
def floatTextIn (layout : Layout) (x : Float) : String :=
  match unpack x with
  | .undefined => layout.undefined
  | .infinite negative => String.ofList (signText negative) ++ layout.infinity
  | .finite negative mantissa exponent =>
    String.ofList (signText negative ++
      if mantissa = 0 then ['0', '.', '0'] else decimalText layout (shortest mantissa exponent))

/-- A floating-point number as scripts and reports write it. -/
def floatText (x : Float) : String := floatTextIn plainLayout x

/-- A floating-point number with a fixed number of places; a number in the middle goes to the even last
digit. -/
def fixedText (places : Nat) (x : Float) : String :=
  match unpack x with
  | .undefined => plainLayout.undefined
  | .infinite negative => String.ofList (signText negative) ++ plainLayout.infinity
  | .finite negative mantissa exponent =>
    let r := Ratio.ofScaled mantissa 2 exponent
    let digits := digitsOf (roundDiv (r.num * tenTo places) r.den)
    let padded := noughts (places + 1 - digits.length) ++ digits
    let whole := padded.length - places
    String.ofList (signText negative ++ padded.take whole ++ ['.'] ++ padded.drop whole)

end EventScript.Number
