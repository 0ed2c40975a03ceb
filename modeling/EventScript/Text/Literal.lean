import EventScript.Text.Printable

/-!
Texts as quoted literals, for display.

A literal stands in single quotes, or in double quotes if the text has a single quote and no double
one. The backslash, the quote in use and the characters without a picture are escaped.
-/

namespace EventScript.Text

set_option autoImplicit false

/-- The last `width` digits of a number in base sixteen. -/
def hexDigits (width n : Nat) : List Char :=
  let digits := Nat.toDigits 16 n
  List.replicate (width - digits.length) '0' ++ digits

/-- The quote that a literal of this text takes. -/
def quoteFor (cs : List Char) : Char :=
  if cs.contains '\'' && !cs.contains '"' then '"' else '\''

def escape (quote c : Char) : List Char :=
  if c == quote || c == '\\' then ['\\', c]
  else if c == '\n' then ['\\', 'n']
  else if c == '\r' then ['\\', 'r']
  else if c == '\t' then ['\\', 't']
  else if isPrintable c then [c]
  else if c.toNat < 0x100 then '\\' :: 'x' :: hexDigits 2 c.toNat
  else if c.toNat < 0x10000 then '\\' :: 'u' :: hexDigits 4 c.toNat
  else '\\' :: 'U' :: hexDigits 8 c.toNat

def literal (cs : List Char) : List Char :=
  quoteFor cs :: cs.flatMap (escape (quoteFor cs)) ++ [quoteFor cs]

end EventScript.Text

namespace EventScript

set_option autoImplicit false

/-- The text as a quoted literal. -/
def literal (s : String) : String := String.ofList (Text.literal s.toList)

end EventScript
