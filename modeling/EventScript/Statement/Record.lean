import EventScript.Data
import EventScript.Statement

/-!
Statement trees as untyped data.

A statement is a table whose `kind` says which other fields it needs. Everything that is wrong with it is
reported with the way to it, which goes through the kinds of the statements.

Main definitions:
* `Statement.ofData`: the statement that data describes;
* `Statement.toData`: the data that describes a statement, its counters apart.
-/

namespace EventScript

set_option autoImplicit false

open Data

namespace Counters

def ofData (data : Data) : Checked Counters :=
  match data with
  | .table _ => Checked.both Counters.mk (data.fieldOr "invocations" 0 readInt)
      (data.fieldOr "total_duration_ms" 0.0 readFloat)
  | _ => Checked.flawed .notTable

end Counters

private def optionalText (data : Data) (name : String) : Checked (Option String) :=
  data.fieldOr name none fun
    | .null => .ok none
    | inner => inner.readText.map some

private def readLoopWord : Data → Checked LoopWord
  | .text "loop" => .ok .loop
  | .text "while" => .ok .whileHolds
  | _ => Checked.flawed .notAmong

private def readLoopSource : Data → Checked LoopSource
  | .text name =>
    match LoopSource.ofName? name with
    | some source => .ok source
    | none => Checked.flawed .notNamed
  | _ => Checked.flawed .notNamed

namespace Clause

/-- The clause of a statement of a kind. -/
def ofData (kind : Kind) (data : Data) : Checked Clause :=
  let need (name : String) : Checked String := data.need name readText
  let names (name : String) : Checked (List String) := data.fieldOr name [] (readList readText)
  match kind with
  | .event => (need "event_type").map .event
  | .function => Checked.both .function (need "name") (names "parameters")
  | .condition => (need "condition").map .condition
  | .otherwise => (optionalText data "condition").map .otherwise
  | .loop => Checked.apply
      (Checked.both Clause.loop (data.fieldOr "loop_type" .loop readLoopWord)
        (data.need "source" readLoopSource))
      (data.fieldOr "argument" "" readText)
  | .command => (need "command").map .command
  | .variableSet => Checked.both .variableSet (need "variable") (need "value")
  | .variableAdd => Checked.both .variableAdd (need "variable") (need "value")
  | .variableDelete => (need "variable").map .variableDelete
  | .sendMessage => Checked.both .sendMessage (need "message") (need "target")
  | .broadcast => (need "message").map .broadcast
  | .giveItem => Checked.apply
      (Checked.both Clause.giveItem (need "target") (data.fieldOr "amount" "1" readText))
      (need "item")
  | .teleport => Checked.both .teleport (need "target") (need "location")
  | .animate => Checked.both .animate (need "animation_type") (names "parameters")
  | .action => .ok .action
  | .returnValue => (optionalText data "value").map .returnValue
  | .breakLoop => .ok .breakLoop
  | .continueLoop => .ok .continueLoop
  | .cancelEvent => .ok .cancelEvent
  | .call => Checked.both .call (need "function_name") (names "arguments")

end Clause

namespace Statement

/-- Tables inside tables are read up to one level less than this. -/
def nestingLimit : Nat := 255

/-- What is read of a table at some level of nesting, the outermost being level one. -/
def ifShallow {α : Type} (level : Nat) (read : Checked α) : Checked α :=
  if nestingLimit ≤ level then Checked.flawed .tooDeep else read

/-- A statement of a kind at some level of nesting, given what was read of its block. -/
def ofFields (kind : Kind) (level : Nat) (data : Data) (block : Checked (List Statement)) :
    Checked Statement := do
  let read := Checked.both Statement.mk (Clause.ofData kind data)
    (data.fieldOr "source_line" "" readText)
  let read := Checked.apply read (data.fieldOr "line_number" 0 readInt)
  let read := Checked.apply read (data.fieldOr "indent_level" 0 readInt)
  let read := Checked.apply read
    (data.fieldOr "stats" {} fun stats => ifShallow (level + 1) (Counters.ofData stats))
  let s ← Checked.apply read block
  if s.block.isEmpty || s.opensBlock then return s
  else Checked.flawed (.rule s!"'{kind.name}' statements cannot contain a block")

/-- The statement that a table describes, given what was read of its block. -/
def ofTable (level : Nat) (data : Data) (block : Checked (List Statement)) : Checked Statement :=
  match data.field? "kind" with
  | none => Checked.flawed .tagMissing
  | some (.text name) =>
    match Kind.ofName? name with
    | some kind => Checked.under (.key name) (ifShallow level (ofFields kind level data block))
    | none => Checked.flawed .tagUnknown
  | some _ => Checked.flawed .tagUnknown

mutual

/-- The statement that data at some level of nesting describes. -/
def ofDataAt (level : Nat) : Data → Checked Statement
  | .table fields => ofTable level (.table fields) (blockOf (level + 1) fields)
  | _ => Checked.flawed .notRecord

/-- The block among the fields of a statement. -/
def blockOf (level : Nat) : List (String × Data) → Checked (List Statement)
  | [] => .ok []
  | (name, inner) :: rest =>
    if name = "children" then Checked.under (.key "children") (blockItems level inner)
    else blockOf level rest

def blockItems (level : Nat) : Data → Checked (List Statement)
  | .list items => ofItems level 0 items
  | _ => Checked.flawed .notList

def ofItems (level n : Nat) : List Data → Checked (List Statement)
  | [] => .ok []
  | item :: rest =>
    Checked.both List.cons (Checked.under (.index n) (ofDataAt level item)) (ofItems level (n + 1) rest)

end

/-- The statement that data describes. -/
def ofData (data : Data) : Checked Statement := ofDataAt 1 data

end Statement

/-! ## Statements written down -/

private def textList (texts : List String) : Data := .list (texts.map .text)

private def textOrNull (text : Option String) : Data := (text.map .text).getD .null

/-- The fields that a clause adds to those of every statement. -/
def Clause.toFields : Clause → List (String × Data)
  | .event eventType => [("event_type", .text eventType)]
  | .function name parameters => [("name", .text name), ("parameters", textList parameters)]
  | .condition test => [("condition", .text test)]
  | .otherwise test => [("condition", textOrNull test)]
  | .loop word source argument =>
    [("loop_type", .text word.name), ("source", .text source.name), ("argument", .text argument)]
  | .command words => [("command", .text words)]
  | .variableSet reference value => [("variable", .text reference), ("value", .text value)]
  | .variableAdd reference value => [("variable", .text reference), ("value", .text value)]
  | .variableDelete reference => [("variable", .text reference)]
  | .sendMessage message target => [("message", .text message), ("target", .text target)]
  | .broadcast message => [("message", .text message)]
  | .giveItem target amount item =>
    [("target", .text target), ("amount", .text amount), ("item", .text item)]
  | .teleport target location => [("target", .text target), ("location", .text location)]
  | .animate animation parameters =>
    [("animation_type", .text animation), ("parameters", textList parameters)]
  | .returnValue value => [("value", textOrNull value)]
  | .call callee arguments => [("function_name", .text callee), ("arguments", textList arguments)]
  | .action | .breakLoop | .continueLoop | .cancelEvent => []

namespace Statement

mutual

/-- The data that describes a statement, without its counters. -/
def toData : Statement → Data
  | ⟨clause, source, line, indent, _, block⟩ =>
    .table ([("kind", .text clause.kind.name), ("source_line", .text source),
      ("line_number", .int line), ("indent_level", .int indent),
      ("children", .list (toDataAll block))] ++ clause.toFields)

def toDataAll : List Statement → List Data
  | [] => []
  | s :: rest => toData s :: toDataAll rest

end

end Statement

end EventScript
