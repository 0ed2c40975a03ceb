/-!
Character classes given as ranges of code points.

A class of a standard is a table of ranges; a character is in the class when its code point lies
in one of them.
-/

namespace EventScript.Text

set_option autoImplicit false

/-- The code points from the first to the last one, both included. -/
abbrev CodeRange := Nat × Nat

def CodeRange.holds (range : CodeRange) (c : Char) : Bool :=
  decide (range.1 ≤ c.toNat) && decide (c.toNat ≤ range.2)

/-- Whether the character lies in one of the ranges. -/
def inRanges (table : List CodeRange) (c : Char) : Bool :=
  table.any (·.holds c)

end EventScript.Text
