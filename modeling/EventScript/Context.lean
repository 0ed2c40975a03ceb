import EventScript.Data
import EventScript.Value

/-!
Execution contexts.

A context is what one invocation of a script has of its own: who acts, which event set it off, its local
variables, and whether the event was cancelled. A function call works on a clone.
-/

namespace EventScript

set_option autoImplicit false

/-- Names in the order of their code points, each once. -/
def sortNames (names : List String) : List String :=
  (names.mergeSort fun a b => decide (a ≤ b)).eraseReps

/-- The state of one invocation. -/
structure Context where
  entity : Option Entity := none
  eventType : Option String := none
  event : Data := .null
  isAsync : Bool := false
  cancelled : Bool := false
  loopDepth : Nat := 0
  locals : Dict String Value := {}
deriving Inhabited

namespace Context

def setLocal (c : Context) (name : String) (value : Value) : Context :=
  { c with locals := c.locals.put name value }

/-- The value of a local variable; nothing if there is none. -/
def getLocal (c : Context) (name : String) : Value := (c.locals.get? name).getD .none

def hasLocal (c : Context) (name : String) : Bool := c.locals.contains name

def removeLocal (c : Context) (name : String) : Context :=
  { c with locals := c.locals.erase name }

def clearLocals (c : Context) : Context := { c with locals := {} }

def enterLoop (c : Context) : Context := { c with loopDepth := c.loopDepth + 1 }

def exitLoop (c : Context) : Context := { c with loopDepth := c.loopDepth - 1 }

def inLoop (c : Context) : Bool := decide (0 < c.loopDepth)

/-- The owner of what the context owns: the acting entity, or the console. -/
def ownerName (c : Context) : String := (c.entity.map (·.name)).getD "console"

/-- A copy of every list among the values, one level deep, each as a new list. -/
def copyLists (lists : Lists) : List (String × Value) → List (String × Value) × Lists
  | [] => ([], lists)
  | (name, .list id) :: rest =>
    let (copied, after) := copyLists (lists.push (lists.get id)) rest
    ((name, .list lists.size) :: copied, after)
  | entry :: rest =>
    let (copied, after) := copyLists lists rest
    (entry :: copied, after)

theorem keys_copyLists (lists : Lists) (entries : List (String × Value)) :
    (copyLists lists entries).1.map (·.1) = entries.map (·.1) := by
  induction entries generalizing lists with
  | nil => rfl
  | cons entry rest ih =>
    obtain ⟨name, value⟩ := entry
    cases value <;> exact congrArg (name :: ·) (ih _)

/-- Local variables with copies of the lists among them, and the lists after that. -/
def copyLocals (lists : Lists) (locals : Dict String Value) : Dict String Value × Lists where
  fst.entries := (copyLists lists locals.entries).1
  fst.nodup := by
    rw [keys_copyLists]
    exact locals.nodup
  snd := (copyLists lists locals.entries).2

/-- An independent context for a nested invocation: the same in everything, with lists of its own. -/
def clone (c : Context) (lists : Lists) : Context × Lists :=
  let (copied, after) := copyLocals lists c.locals
  ({ c with locals := copied }, after)

/-- What is told about a context, by name, its local variables apart. -/
def facts (c : Context) : List (String × Data) :=
  let orNull (text : Option String) : Data := (text.map .text).getD .null
  [("entity", orNull (c.entity.map (·.name))), ("event_type", orNull c.eventType), ("event", c.event),
   ("is_async", .bool c.isAsync), ("cancelled", .bool c.cancelled), ("loop_depth", .int c.loopDepth),
   ("in_loop", .bool c.inLoop)]

/-- The context in a report. -/
def shown (c : Context) : String :=
  let event := (c.eventType.map literal).getD "None"
  let names := ", ".intercalate ((sortNames c.locals.keys).map literal)
  s!"ExecutionContext(entity={literal c.ownerName}, event_type={event}, locals=[{names}])"

end Context

end EventScript
