import EventScript.Text.Blank
import EventScript.Text.Search

/-!
Double quotes inside a text.

`segments` cuts a text into plain segments and quoted ones: a quoted segment runs from a double quote
to the next one, and a quote that is never closed is plain. Plain and quoted segments alternate, and
the first and the last one are plain. `mapPlain` works on the plain segments only and
`splitUnquoted` cuts at separators in them.
-/

namespace EventScript.Text

set_option autoImplicit false

/-- A piece of a text. A quoted segment holds the characters between its quotes. -/
inductive Segment where
  | plain (cs : List Char)
  | quoted (cs : List Char)
deriving DecidableEq, Repr

namespace Segment

/-- The segment as it stands in the text. -/
def chars : Segment → List Char
  | plain cs => cs
  | quoted cs => '"' :: cs ++ ['"']

end Segment

/-- Puts a character in front of the first segment. -/
def consSegment (c : Char) : List Segment → List Segment
  | .plain cs :: rest => .plain (c :: cs) :: rest
  | .quoted cs :: rest => .quoted (c :: cs) :: rest
  | [] => []

/-- The segments of a text that starts inside or outside quotes. A double quote opens a quoted segment
only if another one follows it. -/
def segmentsFrom : Bool → List Char → List Segment
  | false, [] => [.plain []]
  | true, [] => [.quoted []]
  | false, c :: rest =>
    if c = '"' ∧ '"' ∈ rest then .plain [] :: segmentsFrom true rest
    else consSegment c (segmentsFrom false rest)
  | true, c :: rest =>
    if c = '"' then .quoted [] :: segmentsFrom false rest
    else consSegment c (segmentsFrom true rest)

/-- The segments of a text. -/
def segments (cs : List Char) : List Segment := segmentsFrom false cs

/-- The text with a change made to its plain segments. -/
def mapPlain (change : List Char → List Char) (cs : List Char) : List Char :=
  (segments cs).flatMap fun
    | .plain part => change part
    | .quoted part => (Segment.quoted part).chars

/-- Puts a text in front of the first piece. -/
def prependPiece (front : List Char) : List (List Char) → List (List Char)
  | [] => [front]
  | piece :: rest => (front ++ piece) :: rest

/-- The pieces of a list of segments: the last piece of each segment runs on into the next one. -/
def splitSegments (separator : List Char) : List Segment → List (List Char)
  | [] => [[]]
  | .quoted part :: rest =>
    prependPiece (Segment.quoted part).chars (splitSegments separator rest)
  | .plain part :: rest =>
    let pieces := splitOn separator part
    pieces.dropLast ++ prependPiece (pieces.getLast?.getD []) (splitSegments separator rest)

/-- The pieces between the occurrences of a separator outside double quotes. -/
def splitUnquoted (separator cs : List Char) : List (List Char) :=
  splitSegments separator (segments cs)

/-- The trimmed text without the quotes around it, if it stands in two equal quotes of either kind. -/
def unquote (cs : List Char) : List Char :=
  let cs := trim cs
  match cs, cs.getLast? with
  | c :: rest, some last =>
    if !rest.isEmpty && c == last && (c == '"' || c == '\'') then rest.dropLast else cs
  | _, _ => cs

/-- The trimmed text without the double quotes around it. -/
def unquoteDouble (cs : List Char) : List Char :=
  let cs := trim cs
  match cs, cs.getLast? with
  | c :: rest, some last =>
    if !rest.isEmpty && c == '"' && last == '"' then rest.dropLast else cs
  | _, _ => cs

end EventScript.Text

namespace EventScript

set_option autoImplicit false

/-- The pieces of a text between the occurrences of a separator outside double quotes. -/
def splitUnquoted (s separator : String) : List String :=
  (Text.splitUnquoted separator.toList s.toList).map String.ofList

/-- The trimmed text without the quotes of either kind around it. -/
def unquoted (s : String) : String := String.ofList (Text.unquote s.toList)

end EventScript
