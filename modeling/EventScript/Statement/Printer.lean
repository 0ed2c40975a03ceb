import EventScript.Source

/-!
Statements as source text.

Every statement is written on a line of its own, four blanks deeper for each block around it. The line
is either the one the statement was read from or, in canonical form, one made from its parts
(`Clause.line?`).
-/

namespace EventScript

set_option autoImplicit false

open Text

/-- What makes up a value that is written without quotes: a whole number, a truth value in any letter
case (the long s counts as an s), or a reference in braces. -/
def bareValue : Shape Unit :=
  let letter (c : Char) : Shape Unit := (fun _ => ()) <$>
    Shape.one fun d => d == c || d == c.toUpper || (c == 's' && d.toNat == 0x17F)
  let spelled (w : String) : Shape Unit :=
    w.toList.foldr (fun c rest => do letter c; rest) (pure ())
  Shape.orElse (do
    let _ ← Shape.optional (Shape.one fun c => c == '+' || c == '-')
    Shape.skip1 isDigit) <|
  Shape.orElse (spelled "true") <|
  Shape.orElse (spelled "false") do
    Shape.word ['\x7b']
    Shape.skip1 fun c => c != '\x7b' && c != '\x7d'
    Shape.word ['\x7d']

/-- The value as it is written in a statement: in double quotes unless it needs none. -/
def writtenValue (value : String) : String :=
  if (bareValue.full? (trim value.toList)).isSome then value else "\"" ++ value ++ "\""

/-- The spelling of an event in a declaration. -/
def eventSpelling (event : String) : String :=
  match eventNames.find? fun entry => entry.2 == event with
  | some (front :: _, _) => front
  | _ => event

def commaList (parts : List String) : String := ", ".intercalate parts

namespace Clause

/-- The line made from the parts of a clause; an action has no parts. -/
def line? : Clause → Option String
  | .event eventType => some s!"on {eventSpelling eventType}:"
  | .function name parameters => some s!"function {name}({commaList parameters}):"
  | .condition test => some s!"if {test}:"
  | .otherwise none => some "else:"
  | .otherwise (some test) => some s!"else if {test}:"
  | .loop _ .whileHolds argument => some s!"while {argument}:"
  | .loop _ .times argument => some s!"loop {argument} times:"
  | .loop _ .players _ => some "loop all players:"
  | .loop _ .entities _ => some "loop all entities:"
  | .loop _ _ argument => some s!"loop {argument}:"
  | .command text => some s!"on command \"{text}\":"
  | .variableSet reference value => some s!"set {reference} to {writtenValue value}"
  | .variableAdd reference value => some s!"add {writtenValue value} to {reference}"
  | .variableDelete reference => some s!"delete {reference}"
  | .sendMessage message target => some s!"send \"{message}\" to {target}"
  | .broadcast message => some s!"broadcast \"{message}\""
  | .giveItem target amount item => some s!"give {target} {amount} {item}"
  | .teleport target location => some s!"teleport {target} to {location}"
  | .animate animation parameters => some s!"animate_{animation}({commaList parameters})"
  | .action => none
  | .returnValue none => some "return"
  | .returnValue (some value) => some s!"return {writtenValue value}"
  | .breakLoop => some "break"
  | .continueLoop => some "continue"
  | .cancelEvent => some "cancel event"
  | .call name arguments => some s!"call {name}({commaList arguments})"

end Clause

namespace Statement

/-- The line of a statement, without indentation. -/
def lineText (canonical : Bool) (clause : Clause) (source : String) : String :=
  if canonical then clause.line?.getD (trimmed source) else trimmed source

/-- A line at a depth, with its line feed. -/
def indented (depth : Nat) (text : String) : String :=
  String.ofList (List.replicate (4 * depth) ' ') ++ text ++ "\n"

mutual

def renderAt (canonical : Bool) (depth : Nat) : Statement → String
  | ⟨clause, source, _, _, _, block⟩ =>
    indented depth (lineText canonical clause source) ++ renderAllAt canonical (depth + 1) block

def renderAllAt (canonical : Bool) (depth : Nat) : List Statement → String
  | [] => ""
  | s :: rest => renderAt canonical depth s ++ renderAllAt canonical depth rest

end

/-- The text with exactly one line feed at its end; nothing stays nothing. -/
def closed (text : String) : String :=
  let body := (text.toList.reverse.dropWhile (· == '\n')).reverse
  if body.isEmpty then "" else String.ofList (body ++ ['\n'])

/-- The source text of a tree, line by line as read or in canonical form. -/
def render (canonical : Bool) (tree : List Statement) : String :=
  closed (renderAllAt canonical 0 tree)

end Statement

end EventScript
