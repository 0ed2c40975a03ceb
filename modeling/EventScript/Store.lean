import EventScript.Reference

/-!
The variable store.

Variables that outlive an invocation are kept in the store: the globals (with the list variables among
them), the ephemeral variables, which are forgotten when nobody asks for them, and one map for each owner.
The store notes when each name was last accessed.

Operations work on a `Memory`: the store with the lists and contexts that its values refer to. They may
fail half-way, when a name or a sum cannot be formed; what was done before stays done.

Main definitions:
* `Memory.read`, `assign`, `increase`, `remove`: access to one variable;
* `Memory.reap`: forgets what has not been accessed for long;
* `Store.statistics`: how much there is.
-/

namespace EventScript

set_option autoImplicit false

/-- The last access to a name: when, and in which namespace. -/
structure LastAccess where
  time : Float
  space : Namespace
deriving DecidableEq, Repr

/-- Variables that outlive an invocation. -/
structure Store where
  retention : Float := 1800.0
  globals : Dict String Value := {}
  ephemeral : Dict String Value := {}
  owners : Dict String (Dict String Value) := {}
  accesses : Dict String LastAccess := {}
deriving Inhabited

/-- The store and what its values refer to. The clock is in seconds; the store goes by it unless it has a
time of its own, which stands still. -/
structure Memory where
  clock : Float := 0.0
  ownTime : Option Float := none
  lists : Lists := {}
  contexts : Table Context := {}
  store : Store := {}
deriving Inhabited

/-- Something done to the memory that may fail half-way. -/
abbrev Access := ExceptT Fault (StateM Memory)

namespace Memory

/-- The time by which the store goes. -/
def storeTime (m : Memory) : Float := m.ownTime.getD m.clock

def context (m : Memory) (id : Nat) : Context := m.contexts.get id

def changeContext (m : Memory) (id : Nat) (change : Context → Context) : Memory :=
  { m with contexts := m.contexts.modify id change }

def changeStore (m : Memory) (change : Store → Store) : Memory :=
  { m with store := change m.store }

/-- The memory with a new list; its number is the number of lists before. -/
def newList (m : Memory) (items : ListVar) : Memory := { m with lists := m.lists.push items }

/-- The memory with a new context; its number is the number of contexts before. -/
def newContext (m : Memory) (c : Context) : Memory := { m with contexts := m.contexts.push c }

/-- The memory with a clone of a context as a new one. -/
def cloneContext (m : Memory) (id : Nat) : Memory :=
  let (c, lists) := (m.context id).clone m.lists
  { m with lists := lists, contexts := m.contexts.push c }

/-! ## Names -/

/-- A failure of a pure step is a failure of the access. -/
def ofExcept {α : Type} (step : Memory → Except Fault α) : Access α := do
  match step (← get) with
  | .ok a => return a
  | .error e => throw e

def nameOf (ctx : Nat) (reference : String) : Access String :=
  ofExcept fun m => Reference.name m.lists (m.context ctx) reference

def ownerOf (ctx : Nat) (reference : String) : Access String :=
  ofExcept fun m => Reference.owner m.lists (m.context ctx) reference

/-- The name of the list that a name with `::*` at its end refers to. -/
def listName (name : String) : String :=
  if Text.endsWith name.toList "::*".toList then String.ofList (name.toList.take (name.length - 3))
  else name

/-- Notes an access, unless it is to a local variable. -/
def touch (name : String) (space : Namespace) : Access Unit :=
  if space = .local then return
  else modify fun m => m.changeStore fun s =>
    { s with accesses := s.accesses.put name ⟨m.storeTime, space⟩ }

/-! ## Access to a variable -/

/-- A list copied into a new one; any other value as it is. -/
def copied (value : Value) : Access Value := do
  match value with
  | .list id =>
    let m ← get
    set (m.newList (m.lists.get id))
    return .list m.lists.size
  | value => return value

/-- The value of a variable; nothing if it is not set. A list reference yields a copy of the list. -/
def read (ctx : Nat) (reference : String) : Access Value := do
  let space := Namespace.of reference
  let name ← nameOf ctx reference
  touch name space
  match space with
  | .ephemeral => return ((← get).store.ephemeral.get? name).getD .none
  | .owner =>
    let owner ← ownerOf ctx reference
    return (((← get).store.owners.get? owner).bind (·.get? name)).getD .none
  | .list => copied (((← get).store.globals.get? (listName name)).getD .none)
  | .global => return ((← get).store.globals.get? name).getD .none
  | .local => return ((← get).context ctx).getLocal name

/-- The index after the largest one. -/
def nextIndex (items : ListVar) : Int :=
  match items.keys with
  | [] => 1
  | key :: rest => rest.foldl max key + 1

/-- Puts a value at the end of a list variable. What is no list yet becomes one. -/
def append (name : String) (value : Value) : Access Unit :=
  modify fun m =>
    match m.store.globals.get? name with
    | some (.list id) =>
      { m with lists := m.lists.modify id fun items => items.put (nextIndex items) value }
    | _ =>
      (m.newList (Dict.empty.put 1 value)).changeStore fun s =>
        { s with globals := s.globals.put name (.list m.lists.size) }

def setGlobal (name : String) (value : Value) : Access Unit :=
  modify fun m => m.changeStore fun s => { s with globals := s.globals.put name value }

/-- Gives a variable a value. A list reference takes over a copy of a list; any other value is put at the
end of its list. -/
def assign (ctx : Nat) (reference : String) (value : Value) : Access Unit := do
  let space := Namespace.of reference
  let name ← nameOf ctx reference
  touch name space
  match space with
  | .ephemeral =>
    modify fun m => m.changeStore fun s => { s with ephemeral := s.ephemeral.put name value }
  | .owner =>
    let owner ← ownerOf ctx reference
    modify fun m => m.changeStore fun s =>
      { s with owners := s.owners.put owner (((s.owners.get? owner).getD {}).put name value) }
  | .list =>
    if value.isList then setGlobal (listName name) (← copied value)
    else append (listName name) value
  | .global => setGlobal name value
  | .local => modify fun m => m.changeContext ctx fun c => c.setLocal name value

/-- Adds a value to a variable: puts it at the end of a list, else replaces nothing by the value and
anything else by the sum. -/
def increase (ctx : Nat) (reference : String) (value : Value) : Access Unit := do
  if Namespace.of reference = .list then
    let name ← nameOf ctx reference
    touch name .list
    append (listName name) value
  else
    let current ← read ctx reference
    if current.isNone then assign ctx reference value
    else
      let sum ← ofExcept fun m => Value.add m.lists current value
      assign ctx reference sum

/-- Removes a variable from the owner's map, and the map if nothing is left in it. -/
def removeOwned (s : Store) (owner name : String) : Store × Bool :=
  match s.owners.get? owner with
  | none => (s, false)
  | some values =>
    if values.contains name then
      let left := values.erase name
      (if left.isEmpty then { s with owners := s.owners.erase owner }
       else { s with owners := s.owners.put owner left }, true)
    else (s, false)

private def wasSet (values : Dict String Value) (name : String) : Bool :=
  !((values.get? name).getD .none).isNone

/-- Removes a variable, a whole list for a list reference, and says whether it had a value. -/
def remove (ctx : Nat) (reference : String) : Access Bool := do
  let space := Namespace.of reference
  let name ← nameOf ctx reference
  modify fun m => m.changeStore fun s => { s with accesses := s.accesses.erase name }
  match space with
  | .ephemeral =>
    let existed := wasSet (← get).store.ephemeral name
    modify fun m => m.changeStore fun s => { s with ephemeral := s.ephemeral.erase name }
    return existed
  | .owner =>
    let owner ← ownerOf ctx reference
    let (store, existed) := removeOwned (← get).store owner name
    modify fun m => { m with store := store }
    return existed
  | .list =>
    let existed := wasSet (← get).store.globals (listName name)
    modify fun m => m.changeStore fun s => { s with globals := s.globals.erase (listName name) }
    return existed
  | .global =>
    let existed := wasSet (← get).store.globals name
    modify fun m => m.changeStore fun s => { s with globals := s.globals.erase name }
    return existed
  | .local =>
    let existed := ((← get).context ctx).hasLocal name
    modify fun m => m.changeContext ctx fun c => c.removeLocal name
    return existed

/-- Whether a variable is set. -/
def isSet (ctx : Nat) (reference : String) : Access Bool := do
  return !(← read ctx reference).isNone

/-- The names that a context sees, sorted. -/
def visibleNames (m : Memory) (ctx : Nat) : List String :=
  let c := m.context ctx
  let owned := ((m.store.owners.get? c.ownerName).getD {}).keys
  sortNames (m.store.globals.keys ++ m.store.ephemeral.keys ++ owned ++ c.locals.keys)

/-! ## Housekeeping -/

/-- Forgets the accesses before the retention window, and the ephemeral variables whose last access is
among them. Says how many accesses were forgotten. -/
def reap (m : Memory) : Memory × Nat :=
  let cutoff := m.storeTime - m.store.retention
  let stale (access : LastAccess) : Bool := !decide (cutoff ≤ access.time)
  let forgotten := m.store.accesses.filter fun _ access => stale access
  let gone := forgotten.filter fun _ access => access.space == .ephemeral
  (m.changeStore fun s =>
    { s with
      accesses := s.accesses.filter fun _ access => !stale access
      ephemeral := s.ephemeral.filter fun name _ => !gone.contains name },
    forgotten.size)

end Memory

namespace Store

/-- Drops the variables of a namespace, of all of them if none is given; with an owner, only that owner's
in the namespace of owners. -/
def clear (s : Store) (space : Option Namespace) (owner : Option String) : Store :=
  let owners := match owner with
    | none => {}
    | some owner => s.owners.erase owner
  match space with
  | none => { s with globals := {}, ephemeral := {}, owners := owners, accesses := {} }
  | some .list => { s with globals := s.globals.filter fun _ value => !value.isList }
  | some .global => { s with globals := s.globals.filter fun _ value => value.isList }
  | some .ephemeral => { s with ephemeral := {} }
  | some .owner => { s with owners := owners }
  | some .local => s

/-- How much there is in a store. -/
structure Statistics where
  globals : Nat
  lists : Nat
  ephemeral : Nat
  owners : Nat
  ownerVariables : Nat
  tracked : Nat
deriving DecidableEq, Repr

/-- The counts by name. -/
def Statistics.facts (s : Statistics) : List (String × Data) :=
  [("global", .int s.globals), ("list", .int s.lists), ("ephemeral", .int s.ephemeral),
   ("owners", .int s.owners), ("owner_variables", .int s.ownerVariables),
   ("tracked", .int s.tracked)]

def statistics (s : Store) : Statistics where
  globals := (s.globals.values.filter fun value => !value.isList).length
  lists := (s.globals.values.filter fun value => value.isList).length
  ephemeral := s.ephemeral.size
  owners := s.owners.size
  ownerVariables := s.owners.values.foldl (fun count values => count + values.size) 0
  tracked := s.accesses.size

end Store

end EventScript
