import EventScript.Number.Binary
import EventScript.Number.Format
import EventScript.Shape

/-!
Numbers read from text.

Scripts know whole numbers, with an optional sign, and decimals with a point; digits may be of any
script. Texts with too many digits are refused, because they would take too long. Settings may also be
written with an exponent or name an infinite number (`floatOfChars?`).
-/

namespace EventScript

set_option autoImplicit false

/-- A number of a script. -/
inductive Number where
  | int (n : Int)
  | float (x : Float)
deriving DecidableEq, Repr

/-- A number has more digits than are converted between text and number. `count` is their number where
it is known. -/
structure TooManyDigits where
  count : Option Nat
deriving DecidableEq, Repr

namespace Number

open Shape Text

/-- As many digits are converted between text and number. -/
def digitLimit : Nat := 4300

private def sign : Shape Bool := do
  let c ← optional (one fun c => c == '+' || c == '-')
  return c == some '-'

private def digits : Shape Excerpt := excerpt (skip1 Text.isDigit)

/-- The shape of a whole number: whether it is negative, and its digits. -/
def intShape : Shape (Bool × Excerpt) := do
  let negative ← sign
  let digits ← digits
  return (negative, digits)

/-- The shape of a decimal: whether it is negative, its digits before and behind the point. -/
def decimalShape : Shape (Bool × Excerpt × Excerpt) := do
  let negative ← sign
  let (whole, places) ← Shape.orElse
    (do
      let whole ← digits
      let places ← optional do
        word ['.']
        excerpt (skip Text.isDigit)
      return (whole, places.getD .empty))
    (do
      word ['.']
      let places ← digits
      return (.empty, places))
  return (negative, whole, places)

private def signed (negative : Bool) (n : Nat) : Int := if negative then -(n : Int) else n

/-- Whether a trimmed text is a whole number. -/
def intOf? (cs : List Char) : Except TooManyDigits (Option Int) :=
  match intShape.full? cs with
  | none => .ok none
  | some (negative, digits) =>
    let digits := digits.chars
    if digitLimit < digits.length then .error ⟨some digits.length⟩
    else .ok (some (signed negative (natOfDigits digits)))

/-- The number closest to a decimal with a sign. Decimals far beyond the range of floating-point numbers
need no arithmetic: from `10 ^ 310` on they are infinite, and below `10 ^ -330` they are zero. -/
def ofDecimal (negative : Bool) (d : Decimal) : Float :=
  let size := ((digitsOfNat d.digits).length : Int) + d.exponent
  if d.digits = 0 ∨ size < -330 then nearest negative 0 1
  else if 310 < size then infinity negative
  else nearest negative d.ratio.num d.ratio.den

/-- The decimal with these digits before and behind the point, times a power of ten. -/
def decimalOf (whole places : Excerpt) (exponent : Int) : Decimal where
  digits := natOfDigits (whole.chars ++ places.chars)
  exponent := exponent - places.chars.length

/-- The number that a trimmed text spells, if it does. -/
def ofChars? (cs : List Char) : Except TooManyDigits (Option Number) := do
  match ← intOf? cs with
  | some n => return some (.int n)
  | none =>
    match decimalShape.full? cs with
    | none => return none
    | some (negative, whole, places) =>
      return some (.float (ofDecimal negative (decimalOf whole places 0)))

/-- The number that a text spells, blanks around it apart. -/
def ofText? (s : String) : Except TooManyDigits (Option Number) := ofChars? (trim s.toList)

/-- The decimal text of a whole number, unless it is too long. -/
def writeInt (n : Int) : Except TooManyDigits String :=
  let s := intText n
  if digitLimit < (digitsOfNat n.natAbs).length then .error ⟨none⟩ else .ok s

/-! ## Order -/

/-- The exact order of two numbers; none if one of them is undefined. -/
def order : Number → Number → Option Ordering
  | int m, int n => some (compare m n)
  | int m, float y => compareInt m y
  | float x, int n => (compareInt n x).map Ordering.swap
  | float x, float y =>
    if x < y then some .lt else if y < x then some .gt else if x == y then some .eq else none

def eq (a b : Number) : Bool := a.order b == some .eq

def lt (a b : Number) : Bool := a.order b == some .lt

def le (a b : Number) : Bool := a.lt b || a.eq b

/-! ## Floating-point texts with exponents -/

private def exponentPart : Shape (Bool × Excerpt) := do
  let _ ← one fun c => c == 'e' || c == 'E'
  intShape

private def withExponent : Shape (Bool × Excerpt × Excerpt × Option (Bool × Excerpt)) := do
  let (negative, whole, places) ← decimalShape
  let exponent ← optional exponentPart
  return (negative, whole, places, exponent)

/-- The floating-point number that a text spells: a decimal with an optional exponent, `inf`, `infinity`
or `nan` in any letter case. -/
def floatOfChars? (cs : List Char) : Option Float :=
  match withExponent.full? cs with
  | some (negative, whole, places, exponent) =>
    let shift := match exponent with
      | some (down, digits) => signed down (natOfDigits digits.chars)
      | none => 0
    some (ofDecimal negative (decimalOf whole places shift))
  | none =>
    let (negative, name) := match cs with
      | '-' :: rest => (true, rest)
      | '+' :: rest => (false, rest)
      | rest => (false, rest)
    match String.ofList (name.map Char.toLower) with
    | "inf" | "infinity" => some (infinity negative)
    | "nan" => some undefined
    | _ => none

/-- The text without the underscores that group its digits. Each of them has to stand between two digits;
`inside` says whether a digit comes before the text. -/
def ungrouped? (inside : Bool) : List Char → Option (List Char)
  | [] => some []
  | c :: cs =>
    if c = '_' then
      if inside && (cs.head?.map Text.isDigit).getD false then ungrouped? false cs else none
    else (ungrouped? (Text.isDigit c) cs).map (c :: ·)

/-- The floating-point number that a text spells, blanks around it and underscores among its digits
apart. -/
def floatOfText? (s : String) : Option Float := (ungrouped? false (trim s.toList)).bind floatOfChars?

end Number

end EventScript
