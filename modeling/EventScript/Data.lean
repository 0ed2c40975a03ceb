import EventScript.Number.Reader

/-!
Data from outside.

Settings, statement trees and event payloads come in as untyped data. A reader turns data into a value of
a type or says what is wrong with it and where (`Issue`). Readers are lenient: a number may be given as a
text, a whole number as a decimal without fraction, a truth value as a word.
-/

namespace EventScript

set_option autoImplicit false

/-- Untyped data. -/
inductive Data where
  | null
  | bool (b : Bool)
  | int (n : Int)
  | float (x : Float)
  | text (s : String)
  | list (items : List Data)
  | table (fields : List (String × Data))
deriving Repr, Inhabited

/-- What is wrong with a piece of data. -/
inductive Flaw where
  | missing
  | notText
  | notInt
  | unreadableInt
  | outOfRange
  | fraction
  | notFinite
  | notFloat
  | unreadableFloat
  | notBool
  | unreadableBool
  | notList
  | notTable
  | notRecord
  | tagMissing
  | tagUnknown
  | notAmong
  | notNamed
  | tooSmall
  | notAbove
  | tooDeep
  | rule (message : String)
deriving DecidableEq, Repr

namespace Flaw

/-- The word under which a flaw is reported. -/
def name : Flaw → String
  | missing => "missing"
  | notText => "string_type"
  | notInt => "int_type"
  | unreadableInt => "int_parsing"
  | outOfRange => "int_parsing_size"
  | fraction => "int_from_float"
  | notFinite => "finite_number"
  | notFloat => "float_type"
  | unreadableFloat => "float_parsing"
  | notBool => "bool_type"
  | unreadableBool => "bool_parsing"
  | notList => "list_type"
  | notTable => "model_type"
  | notRecord => "model_attributes_type"
  | tagMissing => "union_tag_not_found"
  | tagUnknown => "union_tag_invalid"
  | notAmong => "literal_error"
  | notNamed => "enum"
  | tooSmall => "greater_than_equal"
  | notAbove => "greater_than"
  | tooDeep => "recursion_depth_exceeded"
  | rule _ => "value_error"

/-- The text that goes with a broken rule. -/
def message? : Flaw → Option String
  | rule message => some s!"Value error, {message}"
  | _ => none

end Flaw

/-- A step on the way to a piece of data. -/
inductive Step where
  | key (name : String)
  | index (n : Nat)
deriving DecidableEq, Repr

/-- A flaw and where it is. -/
structure Issue where
  path : List Step
  flaw : Flaw
deriving DecidableEq, Repr

namespace Issue

def under (step : Step) (issue : Issue) : Issue := { issue with path := step :: issue.path }

end Issue

/-- A value, or everything that is wrong with the data. -/
abbrev Checked (α : Type) := Except (List Issue) α

namespace Checked

variable {α β γ : Type}

def flawed (flaw : Flaw) : Checked α := .error [⟨[], flaw⟩]

def under (step : Step) : Checked α → Checked α
  | .ok a => .ok a
  | .error issues => .error (issues.map (·.under step))

/-- Both values, or the issues of both. -/
def both (f : α → β → γ) : Checked α → Checked β → Checked γ
  | .ok a, .ok b => .ok (f a b)
  | .ok _, .error issues => .error issues
  | .error issues, .ok _ => .error issues
  | .error first, .error second => .error (first ++ second)

/-- A function and its argument, or the issues of both. -/
def apply (f : Checked (α → β)) (a : Checked α) : Checked β := both (fun f a => f a) f a

/-- The results for all items, or the issues of all, each under its place. -/
def all (items : List (Checked α)) : Checked (List α) :=
  ((items.zipIdx.map fun (item, n) => under (.index n) item).foldr (both List.cons) (.ok []))

end Checked

namespace Data

open Text

/-- The name of the type of data, as it appears in messages. -/
def typeName : Data → String
  | null => "NoneType"
  | bool _ => "bool"
  | int _ => "int"
  | float _ => "float"
  | text _ => "str"
  | list _ => "list"
  | table _ => "dict"

def ofNumber : Number → Data
  | .int n => int n
  | .float x => float x

def field? (data : Data) (name : String) : Option Data :=
  match data with
  | table fields => (fields.find? fun entry => entry.1 == name).map (·.2)
  | _ => none

/-- What a path of names leads to. -/
def lookup? (data : Data) : List String → Option Data
  | [] => some data
  | name :: rest =>
    match data.field? name with
    | some inner => inner.lookup? rest
    | none => none

def readText : Data → Checked String
  | text s => .ok s
  | _ => Checked.flawed .notText

/-- Whole numbers of this size and more are not taken from floating-point numbers. -/
private def wideInt : Nat := Number.twoTo 63

def readFloatAsInt (x : Float) : Checked Int :=
  match Number.unpack x with
  | .finite negative mantissa exponent =>
    let size := Number.Ratio.ofScaled mantissa 2 exponent
    let whole := size.num / size.den
    if size.num % size.den ≠ 0 then Checked.flawed .fraction
    else if wideInt ≤ whole then Checked.flawed .outOfRange
    else .ok (if negative then -(whole : Int) else whole)
  | _ => Checked.flawed .notFinite

/-! ## Numbers in texts -/

/-- A text without the underscores that group its digits: single ones with something on both sides. -/
private def ungrouped? (cs : List Char) : Option (List Char) :=
  if cs.head? == some '_' || cs.getLast? == some '_' || occursIn ['_', '_'] cs then none
  else some (cs.filter (· != '_'))

/-- The digits at the start of a text, unless the first of them is a nought. -/
private def leadingDigits (cs : List Char) : List Char :=
  if cs.head? == some '0' then [] else cs.takeWhile Char.isDigit

/-- The sign and the digits at the start of a text that could be those of a plain whole number. -/
private def plainStart : List Char → List Char
  | '-' :: cs => '-' :: leadingDigits cs
  | cs => leadingDigits cs

/-- A whole number without needless characters: a nought alone, or digits that do not start with one;
`-` may stand in front. -/
private def plainInt? (cs : List Char) : Option Int :=
  let (negative, digits) := match cs with
    | '-' :: digits => (true, digits)
    | digits => (false, digits)
  if digits = ['0'] then some 0
  else if digits.isEmpty || leadingDigits digits != digits || decide (Number.digitLimit < cs.length) then
    none
  else some (if negative then -(natOfDigits digits : Int) else natOfDigits digits)

/-- The text without a `+` in front, unless a `-` follows. -/
private def withoutPlus? : List Char → Option (List Char)
  | '+' :: '-' :: _ => none
  | '+' :: cs => some cs
  | cs => some cs

/-- The text without the noughts in front, which underscores may group. A nought stays if no other digit
follows. -/
private def withoutNoughts (cs : List Char) : List Char :=
  if cs.head? == some '0' then
    let noughts := cs.takeWhile fun c => c == '0' || c == '_'
    let behind := cs.drop noughts.length
    match behind with
    | c :: _ => if c.isDigit then behind else cs.drop (noughts.length - 1)
    | [] => cs.drop (noughts.length - 1)
  else cs

/-- The text without a fraction of noughts. -/
private def withoutFraction (cs : List Char) : List Char :=
  let whole := cs.takeWhile (· != '.')
  match cs.drop (whole.length + 1) with
  | [] => cs
  | places => if places.all (· == '0') then whole else cs

/-- A whole number in a text. It may have white space around it, a sign, noughts in front that are no more
than that, underscores that group its digits, and a fraction of noughts. A plain one with too many digits
is told apart from a text that is no number. -/
private def intInText (cs : List Char) : Checked Int :=
  if Number.digitLimit < (plainStart cs).length then Checked.flawed .outOfRange
  else
    let read := do
      let bare ← withoutPlus? (trimSpacing cs)
      let digits ← ungrouped? (withoutFraction (withoutNoughts bare))
      plainInt? digits
    match read with
    | some n => .ok n
    | none => Checked.flawed .unreadableInt

/-- A floating-point number of seven-bit characters. -/
private def plainFloat? (cs : List Char) : Option Float :=
  if cs.all fun c => decide (c.toNat < 128) then Number.floatOfChars? cs else none

/-- A floating-point number in a text. It may have white space around it, or else underscores that group
its digits. -/
private def floatInText (cs : List Char) : Option Float :=
  (plainFloat? (trimSpacing cs)).or ((ungrouped? cs).bind plainFloat?)

/-! ## Readers -/

def readInt : Data → Checked Int
  | int n => .ok n
  | bool b => .ok (if b then 1 else 0)
  | float x => readFloatAsInt x
  | text s => intInText s.toList
  | _ => Checked.flawed .notInt

def readFloat : Data → Checked Float
  | float x => .ok x
  | int n =>
    match Number.ofInt? n with
    | some x => .ok x
    | none => Checked.flawed .notFloat
  | bool b => .ok (if b then 1.0 else 0.0)
  | text s =>
    match floatInText s.toList with
    | some x => .ok x
    | none => Checked.flawed .unreadableFloat
  | _ => Checked.flawed .notFloat

private def yesWords : List String := ["1", "t", "true", "y", "yes", "on"]

private def noWords : List String := ["0", "f", "false", "n", "no", "off"]

private def boolOfInt (n : Int) : Checked Bool :=
  if n = 0 then .ok false
  else if n = 1 then .ok true
  else if -(wideInt : Int) ≤ n ∧ n < wideInt then Checked.flawed .unreadableBool
  else Checked.flawed .notBool

def readBool : Data → Checked Bool
  | bool b => .ok b
  | int n => boolOfInt n
  | float x =>
    match readFloatAsInt x with
    | .ok n => boolOfInt n
    | .error _ => Checked.flawed .notBool
  | text s =>
    let word := String.ofList (s.toList.map Char.toLower)
    if yesWords.contains word then .ok true
    else if noWords.contains word then .ok false
    else Checked.flawed .unreadableBool
  | _ => Checked.flawed .notBool

def readList {α : Type} (read : Data → Checked α) : Data → Checked (List α)
  | list items => Checked.all (items.map read)
  | _ => Checked.flawed .notList

/-- The field of a table, read; it has to be there. -/
def need {α : Type} (data : Data) (name : String) (read : Data → Checked α) : Checked α :=
  Checked.under (.key name) <|
    match data.field? name with
    | some inner => read inner
    | none => Checked.flawed .missing

/-- The field of a table, read; where it is missing, a given value. -/
def fieldOr {α : Type} (data : Data) (name : String) (given : α) (read : Data → Checked α) :
    Checked α :=
  match data.field? name with
  | some inner => Checked.under (.key name) (read inner)
  | none => .ok given

end Data

end EventScript
