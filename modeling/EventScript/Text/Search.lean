/-!
Finding a text inside a text.

`splitOn` cuts at every occurrence of a separator, from left to right; `glue` puts the pieces together
again. `occursIn` says whether there is an occurrence at all. `scan` finds the occurrences of any
pattern that a function recognises, from left to right and without overlap.
-/

namespace EventScript.Text

set_option autoImplicit false

/-- What follows `part` if the text starts with it. -/
def dropPart? : List Char → List Char → Option (List Char)
  | [], cs => some cs
  | _ :: _, [] => none
  | p :: part, c :: cs => if p = c then dropPart? part cs else none

theorem dropPart?_eq_some_iff {part cs rest : List Char} :
    dropPart? part cs = some rest ↔ cs = part ++ rest := by
  induction part generalizing cs with
  | nil => simp [dropPart?]
  | cons p part ih =>
    cases cs with
    | nil => simp [dropPart?]
    | cons c cs =>
      by_cases h : p = c
      · simp [dropPart?, h, ih]
      · simp [dropPart?, h, Ne.symm h]

def startsWith (cs part : List Char) : Bool := (dropPart? part cs).isSome

def endsWith (cs part : List Char) : Bool := startsWith cs.reverse part.reverse

/-- Whether `part` occurs in the text. -/
def occursIn (part : List Char) : List Char → Bool
  | [] => part.isEmpty
  | c :: cs => startsWith (c :: cs) part || occursIn part cs

/-! ## Cutting at a separator -/

/-- Puts a character in front of the first piece. -/
def consPiece (c : Char) : List (List Char) → List (List Char)
  | [] => [[c]]
  | piece :: rest => (c :: piece) :: rest

/-- The pieces of a text of which `skip` characters still belong to an occurrence of the separator. -/
def splitFrom (separator : List Char) : Nat → List Char → List (List Char)
  | _, [] => [[]]
  | skip + 1, _ :: cs => splitFrom separator skip cs
  | 0, c :: cs =>
    if startsWith (c :: cs) separator then [] :: splitFrom separator (separator.length - 1) cs
    else consPiece c (splitFrom separator 0 cs)

/-- The pieces between the occurrences of a separator, found from left to right without overlap.
There is always at least one piece. -/
def splitOn (separator cs : List Char) : List (List Char) := splitFrom separator 0 cs

/-- The pieces with the separator between them. -/
def glue (separator : List Char) (pieces : List (List Char)) : List Char :=
  separator.intercalate pieces

/-! ## Scanning for a pattern -/

/-- The text as characters and occurrences. `find` gets the character before a place and the text
from there on, and answers with what it recognises and how many characters that takes, at least one.
`skip` characters still belong to the last occurrence. -/
def scanFrom {α : Type} (find : Option Char → List Char → Option (α × Nat)) :
    Option Char → Nat → List Char → List (Char ⊕ α)
  | _, _, [] => []
  | _, skip + 1, c :: cs => scanFrom find (some c) skip cs
  | before, 0, c :: cs =>
    match find before (c :: cs) with
    | some (found, size) => .inr found :: scanFrom find (some c) (size - 1) cs
    | none => .inl c :: scanFrom find (some c) 0 cs

/-- The text as characters and occurrences of a pattern, from left to right without overlap. -/
def scan {α : Type} (find : Option Char → List Char → Option (α × Nat)) (cs : List Char) :
    List (Char ⊕ α) :=
  scanFrom find none 0 cs

/-- The occurrences alone. -/
def occurrences {α : Type} (find : Option Char → List Char → Option (α × Nat)) (cs : List Char) :
    List α :=
  (scan find cs).filterMap fun
    | .inl _ => none
    | .inr found => some found

/-- The text with every occurrence replaced. -/
def replaceAll {α : Type} (find : Option Char → List Char → Option (α × Nat))
    (replacement : α → List Char) (cs : List Char) : List Char :=
  (scan find cs).flatMap fun
    | .inl c => [c]
    | .inr found => replacement found

end EventScript.Text
