/-!
White space, and texts without it at their ends.

`isBlank` is the white space of every script. `trim` takes the blanks off both ends of a text and
`words` cuts a text at its runs of blanks. Settings know a narrower white space, `isSpacing`.
-/

namespace EventScript.Text

set_option autoImplicit false

/-- White space, wherever it comes from: tabs and line breaks, separators, and the spaces of all
widths. Characters that merely take no room are no white space. -/
def isBlank (c : Char) : Bool :=
  let n := c.toNat
  decide (9 ≤ n ∧ n ≤ 13) || decide (28 ≤ n ∧ n ≤ 32) || n == 0x85 || n == 0xA0 || n == 0x1680 ||
    decide (0x2000 ≤ n ∧ n ≤ 0x200A) || n == 0x2028 || n == 0x2029 || n == 0x202F ||
    n == 0x205F || n == 0x3000

/-- White space without the four separators of files, groups, records and units (U+001C to U+001F). -/
def isSpacing (c : Char) : Bool := isBlank c && !(decide (28 ≤ c.toNat) && decide (c.toNat < 32))

def trimLeft (cs : List Char) : List Char := cs.dropWhile isBlank

def trimRight (cs : List Char) : List Char := (cs.reverse.dropWhile isBlank).reverse

/-- The text without the blanks at its ends. -/
def trim (cs : List Char) : List Char := trimRight (trimLeft cs)

/-- The text without the spacing at its ends. -/
def trimSpacing (cs : List Char) : List Char :=
  ((cs.dropWhile isSpacing).reverse.dropWhile isSpacing).reverse

/-- The words of a text and whether it starts inside its first word. -/
def wordsFrom : List Char → Bool × List (List Char)
  | [] => (false, [])
  | c :: rest =>
    match wordsFrom rest with
    | (inside, found) =>
      if isBlank c then (false, found)
      else match inside, found with
        | true, w :: ws => (true, (c :: w) :: ws)
        | _, ws => (true, [c] :: ws)

/-- The maximal runs of characters that are no blanks. -/
def words (cs : List Char) : List (List Char) := (wordsFrom cs).2

end EventScript.Text

namespace EventScript

set_option autoImplicit false

/-- The text without the blanks at its ends. -/
def trimmed (s : String) : String := String.ofList (Text.trim s.toList)

end EventScript
