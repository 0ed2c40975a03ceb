import EventScript.Dict
import EventScript.Table
import EventScript.Number.Reader
import EventScript.Text.Literal
import EventScript.Text.LowerCase

/-!
Values of a script.

A value is nothing, a truth value, a number, a text, an entity of the host or a list variable. A list
variable maps indexes to values; it is shared by all who hold it and therefore known by its number in the
table of lists.

Main definitions:
* `Value.text`: a value inside a text;
* `Value.ofText`: the value that a text stands for;
* `Value.add`: the sum of two values.
-/

namespace EventScript

set_option autoImplicit false

/-- Someone or something that acts in the world of the host. -/
structure Entity where
  name : String
  displayName : String
  world : Option String
deriving DecidableEq, Repr, Inhabited

/-- A value of a script. -/
inductive Value where
  | none
  | bool (b : Bool)
  | int (n : Int)
  | float (x : Float)
  | text (s : String)
  | entity (e : Entity)
  | list (id : Nat)
deriving DecidableEq, Repr, Inhabited

/-- A list variable: values under indexes, in the order in which they came in. -/
abbrev ListVar := Dict Int Value

/-- All list variables there are. -/
abbrev Lists := Table ListVar

/-- What can go wrong while a statement runs. -/
inductive Fault where
  /-- A number has too many digits to be read or written. -/
  | digits (e : TooManyDigits)
  /-- A whole number lies beyond the floating-point numbers. -/
  | tooLarge
  /-- A quotient of whole numbers lies beyond the floating-point numbers. -/
  | quotientTooLarge
  /-- The count of a loop is no whole number. -/
  | loopCount (text : String)
  /-- A loop over something that is no list. -/
  | notAList (type : String)
  /-- A list grew while a loop went over it. -/
  | listGrew
  /-- A list that holds itself, directly or in another list, has no text. -/
  | holdsItself
  /-- The host failed. -/
  | host (text : String)
  /-- The host did not get to a call in time. -/
  | hostTimeout
  /-- No thread can wait for as long as it is asked to. -/
  | waitTooLong
  /-- A script has too many statements. -/
  | tooManyStatements (script : String) (count : Nat) (limit : Int)
deriving DecidableEq, Repr

namespace Fault

def message : Fault → String
  | digits ⟨some count⟩ =>
    s!"Exceeds the limit ({Number.digitLimit} digits) for integer string conversion: " ++
      s!"value has {count} digits; use sys.set_int_max_str_digits() to increase the limit"
  | digits ⟨Option.none⟩ =>
    s!"Exceeds the limit ({Number.digitLimit} digits) for integer string conversion; " ++
      "use sys.set_int_max_str_digits() to increase the limit"
  | tooLarge => "int too large to convert to float"
  | quotientTooLarge => "integer division result too large for a float"
  | loopCount text => s!"Invalid loop count: {text}"
  | notAList type => s!"'{type}' object has no attribute 'items'"
  | listGrew => "dictionary changed size during iteration"
  | holdsItself => "maximum recursion depth exceeded"
  | host text => text
  | hostTimeout => "Timed out waiting for the authoritative thread"
  | waitTooLong => "timestamp out of range for platform time_t"
  | tooManyStatements script count limit =>
    s!"Failed to parse script '{script}': script has {count} statements, limit is {limit}"

end Fault

namespace Value

def isNone : Value → Bool
  | none => true
  | _ => false

/-- Whether the value is a number; truth values are none. -/
def isNumeric : Value → Bool
  | int _ | float _ => true
  | _ => false

def isEntity : Value → Bool
  | entity _ => true
  | _ => false

def isList : Value → Bool
  | list _ => true
  | _ => false

/-- The name of the type of a value, as it appears in messages. -/
def typeName : Value → String
  | none => "NoneType"
  | bool _ => "bool"
  | int _ => "int"
  | float _ => "float"
  | text _ => "str"
  | entity _ => "Entity"
  | list _ => "dict"

/-- Whether a value counts as something: neither nothing, false, zero nor empty. -/
def isSomething (lists : Lists) : Value → Bool
  | none => false
  | bool b => b
  | int n => n != 0
  | float x => !(x == 0.0)
  | text s => !s.isEmpty
  | entity _ => true
  | list id => !(lists.get id).isEmpty

/-! ## Values as text -/

/-- The text of a value whose lists are nested at most so deep. -/
def textTo (lists : Lists) : Nat → Value → Except Fault String
  | _, none => .ok "None"
  | _, bool b => .ok (if b then "true" else "false")
  | _, int n => (Number.writeInt n).mapError .digits
  | _, float x => .ok (Number.floatText x)
  | _, text s => .ok s
  | _, entity e => .ok e.name
  | 0, list _ => .error .holdsItself
  | depth + 1, list id => do
    let parts ← (lists.get id).values.mapM (textTo lists depth)
    return ", ".intercalate parts

/-- The text of a value; that of a list has commas between those of its values. A value whose lists are nested
deeper than there are lists holds one that holds itself. -/
def inText (lists : Lists) (value : Value) : Except Fault String := textTo lists (lists.size + 1) value

/-- A value as it is shown in reports, with lists nested at most so deep. -/
def shownTo (lists : Lists) : Nat → Value → String
  | _, none => "None"
  | _, bool b => if b then "True" else "False"
  | _, int n => Number.intText n
  | _, float x => Number.floatText x
  | _, text s => literal s
  | _, entity e => e.name
  | 0, list _ => "\x7b\x7d"
  | depth + 1, list id =>
    let parts := (lists.get id).entries.map fun (index, value) =>
      Number.intText index ++ ": " ++ shownTo lists depth value
    "\x7b" ++ ", ".intercalate parts ++ "\x7d"

/-- A value as it is shown in reports: texts as literals, lists with their indexes. -/
def shown (lists : Lists) (value : Value) : String := shownTo lists (lists.size + 1) value

/-! ## Values from text -/

/-- Whether a text is a given word in small letters, blanks and letter case apart. -/
def spells (cs : List Char) (word : String) : Bool := Text.lower (Text.trim cs) == word.toList

/-- The value that a text stands for: a whole number, a truth value, or the text itself. -/
def ofText (s : String) : Except Fault Value := do
  match ← (Number.intOf? (Text.trim s.toList)).mapError Fault.digits with
  | some n => return int n
  | Option.none =>
    if spells s.toList "true" then return bool true
    else if spells s.toList "false" then return bool false
    else return text s

/-! ## Sums -/

/-- The sum of two values: numbers are added, texts are joined with the text of the other value, and
anything else is replaced by the new value. -/
def add (lists : Lists) (current value : Value) : Except Fault Value :=
  let toFloat (n : Int) : Except Fault Float :=
    match Number.ofInt? n with
    | some x => .ok x
    | Option.none => .error .tooLarge
  let joined : Except Fault Value := do
    return text ((← inText lists current) ++ (← inText lists value))
  match current, value with
  | int m, int n => .ok (int (m + n))
  | int m, float y => (toFloat m).map fun x => float (x + y)
  | float x, int n => (toFloat n).map fun y => float (x + y)
  | float x, float y => .ok (float (x + y))
  | text _, _ => joined
  | _, text _ => joined
  | _, _ => .ok value

end Value

end EventScript
