import EventScript.Text.Blank
import EventScript.Text.WordChar
import EventScript.Text.Quoted

/-!
Conditions in operator form.

A condition may be written in words (`is not`, `is greater than`, `has permission`, `and`, ...).
`normalize` replaces the phrases of the table `phrases` by operators, one phrase after another in the
order of the table, so that a longer phrase wins over the words it contains. A phrase counts only as
whole words, its words may be any blanks apart, and nothing changes between double quotes.
-/

namespace EventScript.Condition

set_option autoImplicit false

open Text

/-- Words of a phrase and the operator that stands for them. -/
structure Phrase where
  words : List String
  operator : String

/-- The phrases in the order in which they are replaced. -/
def phrases : List Phrase :=
  [⟨["is", "not"], "!="⟩,
   ⟨["is", "greater", "than"], ">"⟩,
   ⟨["is", "less", "than"], "<"⟩,
   ⟨["is"], "=="⟩,
   ⟨["has", "permission"], "hasPermission"⟩,
   ⟨["has"], "contains"⟩,
   ⟨["and"], "&&"⟩,
   ⟨["or"], "||"⟩]

/-- What follows the words if the text starts with them, with blanks between each two. -/
def dropWords? : List (List Char) → List Char → Option (List Char)
  | [], cs => some cs
  | [w], cs => dropPart? w cs
  | w :: ws, cs =>
    match dropPart? w cs with
    | some (c :: rest) => if isBlank c then dropWords? ws (trimLeft rest) else none
    | _ => none

/-- Recognises the phrase at the start of a text, as whole words. -/
def Phrase.at? (phrase : Phrase) (before : Option Char) (cs : List Char) : Option (Unit × Nat) :=
  if before.any isWord then none
  else match dropWords? (phrase.words.map String.toList) cs with
    | some rest => if rest.head?.any isWord then none else some ((), cs.length - rest.length)
    | none => none

def Phrase.replace (phrase : Phrase) (cs : List Char) : List Char :=
  replaceAll phrase.at? (fun _ => phrase.operator.toList) cs

/-- The text with all phrases replaced by their operators. -/
def operators (cs : List Char) : List Char :=
  phrases.foldl (fun cs phrase => phrase.replace cs) cs

/-- The trimmed condition with operators for the phrases outside double quotes. -/
def normalize (condition : String) : String :=
  String.ofList (mapPlain operators (trim condition.toList))

end EventScript.Condition
