import EventScript.Value

/-!
Outcomes of statements, blocks and invocations.

Every statement ends in an outcome. Success lets the next statement run; the others travel upwards to the
construct that handles them. An error knows the line of the innermost statement that failed.
-/

namespace EventScript

set_option autoImplicit false

/-- How a statement, a block or an invocation ended. -/
inductive Outcome where
  | success (message : Option String) (payload : Value)
  | error (message : Option String) (fault : Option Fault) (line : Option Int)
  | returned (payload : Value)
  | broke
  | continued
  | cancelled
deriving DecidableEq, Repr, Inhabited

namespace Outcome

/-- Success with nothing to say. -/
def done : Outcome := success none .none

/-- An error that no statement has taken the blame for yet. -/
def failed (message : String) : Outcome := error (some message) none none

def kindName : Outcome → String
  | success .. => "success"
  | error .. => "error"
  | returned _ => "return"
  | broke => "break"
  | continued => "continue"
  | cancelled => "cancel"

def message? : Outcome → Option String
  | success message _ => message
  | error message _ _ => message
  | returned _ => some "Return"
  | broke => some "Break"
  | continued => some "Continue"
  | cancelled => some "Cancel"

def payload : Outcome → Value
  | success _ payload => payload
  | returned payload => payload
  | _ => .none

def fault? : Outcome → Option Fault
  | error _ fault _ => fault
  | _ => none

def isSuccess : Outcome → Bool
  | success .. => true
  | _ => false

def isError : Outcome → Bool
  | error .. => true
  | _ => false

/-- Return, break, continue and cancel are no failures. -/
def isControlFlow : Outcome → Bool
  | returned _ | broke | continued | cancelled => true
  | _ => false

/-- Whether the outcome ends a block inside a function or handler. -/
def endsBlock : Outcome → Bool
  | success .. => false
  | _ => true

/-- Whether the outcome ends a function body or a whole run; a break or continue outside any loop does
not. -/
def endsFrame : Outcome → Bool
  | error .. | returned _ | cancelled => true
  | _ => false

/-- The outcome with a line to blame, unless it already has one. -/
def blame (line : Int) : Outcome → Outcome
  | error message fault none => error message fault (some line)
  | outcome => outcome

/-- The outcome in a report. -/
def shown (lists : Lists) (outcome : Outcome) : String :=
  let message := (outcome.message?.map literal).getD "None"
  let payload := if outcome.payload.isNone then "" else s!", payload={outcome.payload.shown lists}"
  let fault := (outcome.fault?.map fun fault => s!", fault={fault.message}").getD ""
  s!"ExecutionResult(kind={outcome.kindName}, message={message}{payload}{fault})"

end Outcome

end EventScript
