import EventScript.Data
import EventScript.Outcome

/-!
The host of a script engine.

A script reaches the world only through calls to the host (`HostCall`), and every kind of call has its own
type of answer. What happens in a run is noted in a journal; a host may answer differently according to
what happened before.

Main definitions:
* `HostCall`, `HostCall.Answer`: the calls and the types of their answers;
* `Event`: what a journal notes;
* `Host`: how calls are answered and how much time they take;
* `Roster`: a host with fixed lists of entities, permissions, items and locations.
-/

namespace EventScript

set_option autoImplicit false

/-- A call to the host. -/
inductive HostCall where
  | findEntity (name : String)
  | onlineEntities
  | sendMessage (entity : Entity) (text : String)
  | broadcast (text : String)
  | resolveItem (descriptor : String)
  | resolveLocation (descriptor : String) (entity : Entity)
  | teleport (entity : Entity) (location : String)
  | giveItem (entity : Entity) (item : String) (amount : Int)
  | playAnimation (animation : String) (parameters : List String) (entity : Option Entity)
  | hasPermission (entity : Entity) (permission : String)
deriving DecidableEq, Repr

namespace HostCall

/-- What a call is answered with, if the host does not fail. -/
abbrev Answer : HostCall → Type
  | findEntity _ => Option Entity
  | onlineEntities => List Entity
  | resolveItem _ => Option String
  | resolveLocation .. => Option String
  | hasPermission .. => Bool
  | _ => Unit

/-- The name of the service that is called. -/
def service : HostCall → String
  | findEntity _ => "find_entity"
  | onlineEntities => "online_entities"
  | sendMessage .. => "send_message"
  | broadcast _ => "broadcast"
  | resolveItem _ => "resolve_item"
  | resolveLocation .. => "resolve_location"
  | teleport .. => "teleport"
  | giveItem .. => "give_item"
  | playAnimation .. => "play_animation"
  | hasPermission .. => "has_permission"

/-- What a service is called with. -/
def arguments : HostCall → List Data
  | findEntity name => [.text name]
  | onlineEntities => []
  | sendMessage entity text => [.text entity.name, .text text]
  | broadcast text => [.text text]
  | resolveItem descriptor => [.text descriptor]
  | resolveLocation descriptor entity => [.text descriptor, .text entity.name]
  | teleport entity location => [.text entity.name, .text location]
  | giveItem entity item amount => [.text entity.name, .text item, .int amount]
  | playAnimation animation parameters entity =>
    [.text animation, .list (parameters.map .text), (entity.map fun e => .text e.name).getD .null]
  | hasPermission entity permission => [.text entity.name, .text permission]

end HostCall

/-- What a journal notes: a statement starts or ends, by its script and its number in the script; the time
is up before a statement; a condition is evaluated; the variables are accessed; the host is called; an event
is cancelled. -/
inductive Event where
  | started (script node context : Nat) (time : Float)
  | ended (script node context : Nat) (outcome : Outcome)
  | timedOut (script node context : Nat)
  | tested (context : Nat) (condition : String)
  | accessed
  | called (call : HostCall)
  | cancelled (context : Nat)
deriving DecidableEq, Repr

/-- What happened, the latest event first. -/
abbrev Journal := List Event

namespace Journal

/-- The calls to the host in the order in which they were made. -/
def calls (journal : Journal) : List HostCall :=
  (journal.filterMap fun
    | .called call => some call
    | _ => none).reverse

end Journal

/-- Why a call has no answer: the host failed, it did not get to the call in time, or the answer could not be
waited for. -/
inductive HostTrouble where
  | failed (text : String)
  | timedOut
  | unwaited (fault : Fault)
deriving DecidableEq, Repr

namespace HostTrouble

def fault : HostTrouble → Fault
  | failed text => .host text
  | timedOut => .hostTimeout
  | unwaited fault => fault

end HostTrouble

/-- The answer to a call, or why there is none. -/
abbrev HostCall.Reply (call : HostCall) : Type := Except HostTrouble call.Answer

/-- A host: how it answers a call and how many seconds that takes, given what happened before. -/
structure Host where
  answer : Journal → (call : HostCall) → call.Reply
  cost : Journal → HostCall → Option Float

/-- A host with fixed lists. `failures` and `costs` are by the name of the service. -/
structure Roster where
  entities : List Entity := []
  permissions : Dict String (List String) := {}
  items : List String := ["diamond", "stone", "bread"]
  locations : List String := ["spawn", "arena"]
  failures : Dict String String := {}
  costs : Dict String Float := {}

namespace Roster

def find? (roster : Roster) (name : String) : Option Entity :=
  roster.entities.find? fun entity => entity.name == name

/-- The entity of a name; one who is not there if the roster does not know it. -/
def entityNamed (roster : Roster) (name : String) : Entity :=
  (roster.find? name).getD ⟨name, name, some "world"⟩

private def among (names : List String) (name : String) : Option String :=
  if names.contains name then some name else none

def respond (roster : Roster) : (call : HostCall) → call.Answer
  | .findEntity name => roster.find? name
  | .onlineEntities => roster.entities
  | .sendMessage .. => ()
  | .broadcast _ => ()
  | .resolveItem descriptor => among roster.items descriptor
  | .resolveLocation descriptor _ => among roster.locations descriptor
  | .teleport .. => ()
  | .giveItem .. => ()
  | .playAnimation .. => ()
  | .hasPermission entity permission =>
    ((roster.permissions.get? entity.name).getD []).contains permission

/-- The host that answers by the lists of a roster. -/
def host (roster : Roster) : Host where
  answer _ call :=
    match roster.failures.get? call.service with
    | some text => .error (.failed text)
    | none => .ok (roster.respond call)
  cost _ call := roster.costs.get? call.service

end Roster

end EventScript
