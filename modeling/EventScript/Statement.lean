import EventScript.Line
import EventScript.Number.Binary

/-!
Statements of a script.

A script is a list of statements. A statement says something (`Clause`), remembers where it was written,
counts its executions (`Counters`) and, if it opens a block, holds the statements of the block.

Main definitions:
* `Clause`: what a statement says, with the parts its kind needs;
* `Statement`: a clause with its place, its counters and its block;
* `Statement.walk`: the statements of a tree, each before those of its block;
* `Statement.recordAt`: an execution noted at the statement of a given number in that order.
-/

namespace EventScript

set_option autoImplicit false

/-- Where a loop takes its passes from. -/
inductive LoopSource where
  | times
  | players
  | entities
  | list
  | whileHolds
  | unknown
deriving DecidableEq, Repr, Inhabited

namespace LoopSource

def name : LoopSource → String
  | times => "times"
  | players => "players"
  | entities => "entities"
  | list => "list"
  | whileHolds => "while"
  | unknown => "unknown"

def all : List LoopSource := [times, players, entities, list, whileHolds, unknown]

/-- The source with the given name. -/
def ofName? (name : String) : Option LoopSource := all.find? (·.name == name)

end LoopSource

namespace LoopWord

def name : LoopWord → String
  | loop => "loop"
  | whileHolds => "while"

end LoopWord

/-- The kinds of statements. -/
inductive Kind where
  | event
  | function
  | condition
  | otherwise
  | loop
  | command
  | variableSet
  | variableAdd
  | variableDelete
  | sendMessage
  | broadcast
  | giveItem
  | teleport
  | animate
  | action
  | returnValue
  | breakLoop
  | continueLoop
  | cancelEvent
  | call
deriving DecidableEq, Repr, Inhabited

namespace Kind

/-- The tag under which a kind is written down. -/
def name : Kind → String
  | event => "event"
  | function => "function"
  | condition => "condition"
  | otherwise => "else"
  | loop => "loop"
  | command => "command"
  | variableSet => "variable_set"
  | variableAdd => "variable_add"
  | variableDelete => "variable_delete"
  | sendMessage => "send_message"
  | broadcast => "broadcast"
  | giveItem => "give_item"
  | teleport => "teleport"
  | animate => "animate"
  | action => "action"
  | returnValue => "return"
  | breakLoop => "break"
  | continueLoop => "continue"
  | cancelEvent => "cancel"
  | call => "call"

def all : List Kind :=
  [event, function, condition, otherwise, loop, command, variableSet, variableAdd, variableDelete,
    sendMessage, broadcast, giveItem, teleport, animate, action, returnValue, breakLoop, continueLoop,
    cancelEvent, call]

/-- The kind with the given tag. -/
def ofName? (name : String) : Option Kind := all.find? (·.name == name)

/-- Whether statements of the kind may hold a block. -/
def opensBlock : Kind → Bool
  | event | function | condition | otherwise | loop | command => true
  | _ => false

end Kind

namespace Line

/-- The kind of statement that a line makes. -/
def kind : Line → Kind
  | command .. => .command
  | event .. => .event
  | function .. => .function
  | otherwise .. => .otherwise
  | condition .. => .condition
  | loop .. => .loop
  | set .. => .variableSet
  | add .. => .variableAdd
  | delete .. => .variableDelete
  | send .. => .sendMessage
  | broadcast .. => .broadcast
  | give .. => .giveItem
  | teleport .. => .teleport
  | animate .. => .animate
  | returnValue .. => .returnValue
  | breakLoop => .breakLoop
  | continueLoop => .continueLoop
  | cancelEvent => .cancelEvent
  | call .. => .call
  | action => .action

/-- The captured parts of a line in the order in which they are written; none for one that is left
out. -/
def parts : Line → List (Option String)
  | command text => [text]
  | event declaration => [declaration]
  | function name parameters => [name, parameters]
  | otherwise test => [test]
  | condition test => [test]
  | loop word clause => [word.name, clause]
  | set reference value => [reference, value]
  | add value reference => [value, reference]
  | delete reference => [reference]
  | send quote message target => [quote, message, target]
  | broadcast quote message => [quote, message]
  | give target amount item => [target, amount, item]
  | teleport target location => [target, location]
  | animate animation parameters => [animation, parameters]
  | returnValue value => [value]
  | call callee arguments => [callee, arguments]
  | breakLoop | continueLoop | cancelEvent | action => []

end Line

/-- What a statement says. -/
inductive Clause where
  | event (eventType : String)
  | function (name : String) (parameters : List String)
  | condition (condition : String)
  | otherwise (condition : Option String)
  | loop (word : LoopWord) (source : LoopSource) (argument : String)
  | command (command : String)
  | variableSet (reference value : String)
  | variableAdd (reference value : String)
  | variableDelete (reference : String)
  | sendMessage (message target : String)
  | broadcast (message : String)
  | giveItem (target amount item : String)
  | teleport (target location : String)
  | animate (animation : String) (parameters : List String)
  | action
  | returnValue (value : Option String)
  | breakLoop
  | continueLoop
  | cancelEvent
  | call (function : String) (arguments : List String)
deriving DecidableEq, Repr, Inhabited

namespace Clause

def kind : Clause → Kind
  | event .. => .event
  | function .. => .function
  | condition .. => .condition
  | otherwise .. => .otherwise
  | loop .. => .loop
  | command .. => .command
  | variableSet .. => .variableSet
  | variableAdd .. => .variableAdd
  | variableDelete .. => .variableDelete
  | sendMessage .. => .sendMessage
  | broadcast .. => .broadcast
  | giveItem .. => .giveItem
  | teleport .. => .teleport
  | animate .. => .animate
  | action => .action
  | returnValue .. => .returnValue
  | breakLoop => .breakLoop
  | continueLoop => .continueLoop
  | cancelEvent => .cancelEvent
  | call .. => .call

end Clause

/-- How often a statement was executed, and for how many milliseconds in all. -/
structure Counters where
  invocations : Int := 0
  totalMs : Float := 0.0
deriving DecidableEq, Repr, Inhabited

namespace Counters

def record (counters : Counters) (ms : Float) : Counters where
  invocations := counters.invocations + 1
  totalMs := counters.totalMs + ms

/-- Milliseconds for each execution; zero if there was none. There is no answer if no floating-point number
comes near the number of executions. -/
def averageMs? (counters : Counters) : Option Float :=
  if counters.invocations = 0 then some 0.0
  else (Number.ofInt? counters.invocations).map fun count => counters.totalMs / count

/-- Equal counts and equal totals; a total that is undefined counts as equal to another such total. -/
def same (c d : Counters) : Bool :=
  c.invocations == d.invocations &&
    (c.totalMs == d.totalMs || (Number.isUndefined c.totalMs && Number.isUndefined d.totalMs))

end Counters

/-- A statement with the block it opens. `line` is its line number, `indent` its level of indentation and
`source` the line as written, without the blanks around it. -/
structure Statement where
  clause : Clause
  source : String := ""
  line : Int := 0
  indent : Int := 0
  stats : Counters := {}
  block : List Statement := []
deriving Repr, Inhabited

namespace Statement

def kind (s : Statement) : Kind := s.clause.kind

/-- Whether the statement may hold a block. -/
def opensBlock (s : Statement) : Bool := s.kind.opensBlock

mutual

/-- The statement and all statements below it, each before those of its block. -/
def walk : Statement → List Statement
  | ⟨clause, source, line, indent, stats, block⟩ =>
    ⟨clause, source, line, indent, stats, block⟩ :: walkAll block

/-- The statements of a tree, each before those of its block. -/
def walkAll : List Statement → List Statement
  | [] => []
  | s :: rest => walk s ++ walkAll rest

end

mutual

/-- The number of statements from this one downwards. -/
def size : Statement → Nat
  | ⟨_, _, _, _, _, block⟩ => sizeAll block + 1

def sizeAll : List Statement → Nat
  | [] => 0
  | s :: rest => size s + sizeAll rest

end

mutual

/-- Depth and kind of every statement, in the order of `walk`. -/
def outlineAt (depth : Nat) : Statement → List (Nat × Kind)
  | ⟨clause, _, _, _, _, block⟩ => (depth, clause.kind) :: outlineAllAt (depth + 1) block

def outlineAllAt (depth : Nat) : List Statement → List (Nat × Kind)
  | [] => []
  | s :: rest => outlineAt depth s ++ outlineAllAt depth rest

end

/-- Depth and kind of every statement of a tree. -/
def outline (tree : List Statement) : List (Nat × Kind) := outlineAllAt 0 tree

mutual

/-- A change of counters at the `n`-th statement in the order of `walk`. -/
def changeStats (change : Counters → Counters) (n : Nat) : Statement → Statement
  | ⟨clause, source, line, indent, stats, block⟩ =>
    match n with
    | 0 => ⟨clause, source, line, indent, change stats, block⟩
    | n + 1 => ⟨clause, source, line, indent, stats, changeStatsAll change n block⟩

def changeStatsAll (change : Counters → Counters) (n : Nat) : List Statement → List Statement
  | [] => []
  | s :: rest =>
    if n < size s then changeStats change n s :: rest
    else s :: changeStatsAll change (n - size s) rest

end

/-- An execution of so many milliseconds, noted at the `n`-th statement in the order of `walk`. -/
def recordAt (tree : List Statement) (n : Nat) (ms : Float) : List Statement :=
  changeStatsAll (·.record ms) n tree

mutual

/-- The statement with all its counters back at zero. -/
def fresh : Statement → Statement
  | ⟨clause, source, line, indent, _, block⟩ => ⟨clause, source, line, indent, {}, freshAll block⟩

def freshAll : List Statement → List Statement
  | [] => []
  | s :: rest => fresh s :: freshAll rest

end

mutual

/-- Equality of statements: same clauses, places, counters and blocks. -/
def same : Statement → Statement → Bool
  | ⟨c₁, s₁, l₁, i₁, t₁, b₁⟩, ⟨c₂, s₂, l₂, i₂, t₂, b₂⟩ =>
    c₁ == c₂ && s₁ == s₂ && l₁ == l₂ && i₁ == i₂ && t₁.same t₂ && sameAll b₁ b₂

def sameAll : List Statement → List Statement → Bool
  | [], [] => true
  | s :: rest, t :: others => same s t && sameAll rest others
  | _, _ => false

end

/-- A list with the element at a place changed. -/
private def changeNth (change : Statement → Statement) : Nat → List Statement → List Statement
  | _, [] => []
  | 0, s :: rest => change s :: rest
  | n + 1, s :: rest => s :: changeNth change n rest

/-- A change of the statement that a path leads to: the place in the tree, then the place in each
block. -/
def changeAt (change : Statement → Statement) : List Nat → List Statement → List Statement
  | [], tree => tree
  | [n], tree => changeNth change n tree
  | n :: path, tree => changeNth (fun s => { s with block := changeAt change path s.block }) n tree

/-- A path without negative places: each of them was counted from the end of its block. -/
def countedFromStart : List Int → List Statement → List Nat
  | [], _ => []
  | n :: path, tree =>
    let place := (if n < 0 then n + tree.length else n).toNat
    place :: ((tree[place]?).map fun s => countedFromStart path s.block).getD []

/-- The statement that a path leads to. -/
def at? : List Nat → List Statement → Option Statement
  | [], _ => none
  | [n], tree => tree[n]?
  | n :: path, tree => tree[n]? >>= fun s => at? path s.block

end Statement

/-- A statement was added to one that cannot hold a block. -/
structure MisplacedChild where
  parent : Statement
  child : Statement

namespace MisplacedChild

def message (e : MisplacedChild) : String :=
  s!"Line {e.parent.line}: '{e.parent.kind.name}' statement cannot contain child statements " ++
    s!"(child at line {e.child.line})"

end MisplacedChild

namespace Statement

/-- The statement with another one at the end of its block. -/
def addChild (s child : Statement) : Except MisplacedChild Statement :=
  if s.opensBlock then .ok { s with block := s.block ++ [child] }
  else .error ⟨s, child⟩

end Statement

end EventScript
