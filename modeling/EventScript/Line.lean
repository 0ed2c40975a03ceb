import EventScript.Shape

/-!
Lines of a script.

A line is told apart by its shape alone. `Line` has one constructor for each form a line can take,
holding the captured parts as written; a line of no special form is an action. `forms` lists the
shapes in the order in which they are tried, and `Line.ofString` takes the first one that fits the
whole line.

A command handler also has the shape of an event handler, so `command` comes before `event`.
-/

namespace EventScript

set_option autoImplicit false

/-- The two words that start a loop. -/
inductive LoopWord where
  | loop
  | whileHolds
deriving DecidableEq, Repr, Inhabited

/-- A line of a script, with its captured parts as written. -/
inductive Line where
  | command (command : String)
  | event (declaration : String)
  | function (name parameters : String)
  | otherwise (condition : Option String)
  | condition (condition : String)
  | loop (word : LoopWord) (clause : String)
  | set (reference value : String)
  | add (value reference : String)
  | delete (reference : String)
  | send (quote message target : String)
  | broadcast (quote message : String)
  | give (target : String) (amount : Option String) (item : String)
  | teleport (target location : String)
  | animate (animation parameters : String)
  | returnValue (value : Option String)
  | breakLoop
  | continueLoop
  | cancelEvent
  | call (function arguments : String)
  | action
deriving DecidableEq, Repr, Inhabited

namespace Line

open Shape Text

/-! ## Parts of lines -/

def text (s : String) : Shape Unit := word s.toList

/-- Anything on one line, as little as possible. -/
def little : Shape Excerpt := excerpt (few1 isInline)

/-- Anything on one line, as much as possible. -/
def much : Shape Excerpt := excerpt (skip1 isInline)

/-- Anything or nothing on one line, as much as possible. -/
def any : Shape Excerpt := excerpt (skip isInline)

def isQuote (c : Char) : Bool := c == '"' || c == '\''

/-- The colon that ends the header of a block. -/
def colon : Shape Unit := do gap; text ":"

/-- A reference in braces, with the braces. -/
def braced : Shape Excerpt := excerpt do
  text "\x7b"
  skip1 (· != '}')
  text "\x7d"

def name : Shape Excerpt := excerpt (skip1 isWord)

/-- A bare name, a reference in braces or a placeholder. -/
def target : Shape Excerpt :=
  Shape.orElse (excerpt (skip1 isNameChar)) <|
    Shape.orElse braced <| excerpt do
      text "%"
      skip1 isNameChar
      text "%"

/-- A text between two equal quotes of either kind. -/
def quotedText : Shape (Char × Excerpt) := do
  let quote ← one isQuote
  let inside ← any
  word [quote]
  return (quote, inside)

/-! ## The forms of lines -/

def commandForm : Shape Line := do
  text "on"; gap1; text "command"; gap1
  let _ ← one isQuote
  let command ← excerpt do
    text "/"
    skip1 fun c => !isQuote c
  let _ ← one isQuote
  colon
  atEnd
  return .command command.text

def eventForm : Shape Line := do
  text "on"; blanks1
  let declaration ← little
  colon
  atEnd
  return .event declaration.text

def functionForm : Shape Line := do
  text "function"; gap1
  let function ← name
  gap; text "("
  let parameters ← excerpt (skip (· != ')'))
  text ")"; colon
  atEnd
  return .function function.text parameters.text

def otherwiseForm : Shape Line := do
  text "else"
  let condition ← optional do
    gap1; text "if"; blanks1
    little
  colon
  atEnd
  return .otherwise (condition.map Excerpt.text)

def conditionForm : Shape Line := do
  text "if"; blanks1
  let condition ← little
  colon
  atEnd
  return .condition condition.text

def loopForm : Shape Line := do
  let word ← Shape.orElse
    (do text "loop"; return LoopWord.loop)
    (do text "while"; return LoopWord.whileHolds)
  blanks1
  let clause ← little
  colon
  atEnd
  return .loop word clause.text

def setForm : Shape Line := do
  text "set"; gap1
  let reference ← braced
  gap1; text "to"; blanks1
  let value ← much
  atEnd
  return .set reference.text value.text

def addForm : Shape Line := do
  text "add"; blanks1
  let value ← much
  gap1; text "to"; gap1
  let reference ← braced
  atEnd
  return .add value.text reference.text

def deleteForm : Shape Line := do
  Shape.orElse (text "delete") (text "clear")
  gap1
  let reference ← braced
  atEnd
  return .delete reference.text

def sendForm : Shape Line := do
  text "send"; gap1
  let (quote, message) ← quotedText
  gap1; text "to"; blanks1
  let target ← much
  atEnd
  return .send (String.ofList [quote]) message.text target.text

def broadcastForm : Shape Line := do
  text "broadcast"; gap1
  let (quote, message) ← quotedText
  atEnd
  return .broadcast (String.ofList [quote]) message.text

def giveForm : Shape Line := do
  text "give"; gap1
  let target ← target
  blanks1
  let amount ← optional do
    let amount ← excerpt (skip1 isDigit)
    blanks1
    return amount
  let item ← much
  atEnd
  return .give target.text (amount.map Excerpt.text) item.text

def teleportForm : Shape Line := do
  text "teleport"; gap1
  let target ← target
  gap1; text "to"; blanks1
  let location ← much
  atEnd
  return .teleport target.text location.text

def animateForm : Shape Line := do
  text "animate_"
  let animation ← name
  gap; text "("
  let parameters ← any
  text ")"
  atEnd
  return .animate animation.text parameters.text

def returnForm : Shape Line := do
  Shape.orElse (text "return") (text "stop")
  let value ← optional do
    blanks1
    much
  atEnd
  return .returnValue (value.map Excerpt.text)

def breakForm : Shape Line := do
  Shape.orElse (text "break") do
    text "exit"; gap1; text "loop"
  return .breakLoop

def continueForm : Shape Line := do
  text "continue"
  return .continueLoop

def cancelForm : Shape Line := do
  text "cancel"
  let _ ← optional do
    gap1; text "event"
  return .cancelEvent

def callForm : Shape Line := do
  text "call"; gap1
  let function ← name
  gap; text "("
  let arguments ← any
  text ")"
  atEnd
  return .call function.text arguments.text

/-- The forms of lines in the order in which they are tried. -/
def forms : List (Shape Line) :=
  [commandForm, eventForm, functionForm, otherwiseForm, conditionForm, loopForm, setForm, addForm,
    deleteForm, sendForm, broadcastForm, giveForm, teleportForm, animateForm, returnForm, breakForm,
    continueForm, cancelForm, callForm]

/-- The first form that fits the whole line; an action if none does. -/
def ofString (line : String) : Line :=
  (forms.findSome? fun form => form.full? line.toList).getD .action

end Line

end EventScript
