/-!
Decimal digits of every script.

Each script has its ten digits side by side, so a table of the zeros says which characters are
digits and what they are worth. `digit?` reads one digit, `natOfDigits` a run of them, most
significant first.
-/

namespace EventScript.Text

set_option autoImplicit false

/-- The code points of the zeros beyond the seven-bit range. -/
def wideZeros : List Nat :=
  [1632, 1776, 1984, 2406, 2534, 2662, 2790, 2918, 3046, 3174,
   3302, 3430, 3558, 3664, 3792, 3872, 4160, 4240, 6112, 6160,
   6470, 6608, 6784, 6800, 6992, 7088, 7232, 7248, 42528, 43216,
   43264, 43472, 43504, 43600, 44016, 65296, 66720, 68912, 69734, 69872,
   69942, 70096, 70384, 70736, 70864, 71248, 71360, 71472, 71904, 72016,
   72784, 73040, 73120, 92768, 92864, 93008, 120782, 120792, 120802, 120812,
   120822, 123200, 123632, 125264, 130032]

/-- The worth of a decimal digit. -/
def digit? (c : Char) : Option Nat :=
  if c.toNat < 128 then
    if c.isDigit then some (c.toNat - 48) else none
  else
    (wideZeros.find? fun z => decide (z ≤ c.toNat) && decide (c.toNat < z + 10)).map
      (c.toNat - ·)

def isDigit (c : Char) : Bool := (digit? c).isSome

/-- The number that a run of digits spells; other characters count as zero. -/
def natOfDigits (cs : List Char) : Nat :=
  cs.foldl (fun n c => 10 * n + (digit? c).getD 0) 0

/-- The digits of a number in base ten, most significant first. -/
def digitsOfNat (n : Nat) : List Char := Nat.toDigits 10 n

end EventScript.Text
