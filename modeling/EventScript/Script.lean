import EventScript.Config
import EventScript.Context
import EventScript.Source

/-!
Scripts.

A script is a statement tree with a name, the source it came from, what was found out about it when it was
made, its issues and its running totals.

Main definitions:
* `Script.make`: a script with its dependencies and directives found;
* `Script.functions`, `eventHandlers`, `commandHandlers`: look-up of statements by what they handle;
* `Script.recordExecution`, `summary`: the totals and a report of them.
-/

namespace EventScript

set_option autoImplicit false

open Text

/-! ## Permissions -/

/-- Well-known commands and the permissions that their handlers need. -/
def commandPermissions : List (List String × String) :=
  [(["/gamemode"], "minecraft.command.gamemode"),
   (["/give"], "minecraft.command.give"),
   (["/tp", "/teleport"], "minecraft.command.teleport"),
   (["/op"], "minecraft.command.op")]

/-- The permission of the first well-known command that a command starts with. -/
def permissionFor (command : String) : Option String :=
  (commandPermissions.find? fun entry =>
    entry.1.any fun front => startsWith command.toList front.toList).map (·.2)

private def isPermissionChar (c : Char) : Bool := !(c == '"' || isBlank c || c == '&' || c == '|')

/-- Recognises a permission check at the start of a text: the operator, blanks, and the permission with or
without double quotes. -/
def permissionCheckAt (_ : Option Char) (cs : List Char) : Option (String × Nat) :=
  match dropPart? "hasPermission".toList cs with
  | some (c :: rest) =>
    if isBlank c then
      let rest := trimLeft rest
      let rest := if rest.head? == some '"' then rest.tail else rest
      let permission := rest.takeWhile isPermissionChar
      let rest := rest.drop permission.length
      let rest := if rest.head? == some '"' then rest.tail else rest
      if permission.isEmpty then none else some (String.ofList permission, cs.length - rest.length)
    else none
  | _ => none

/-- The permissions that a condition asks for. -/
def permissionsIn (condition : String) : List String :=
  occurrences permissionCheckAt condition.toList

/-! ## Directives -/

/-- What a comment may say about a script. -/
inductive Directive where
  | author (value : String)
  | version (value : String)
  | description (value : String)
  | requires (value : String)
  | permission (value : String)
deriving DecidableEq, Repr

namespace Directive

private def names : List (String × (String → Directive)) :=
  [("author", author), ("version", version), ("description", description), ("requires", requires),
    ("permission", permission)]

/-- The directive on a line: a hash sign, an at sign with the name, blanks and the value. -/
def ofLine? (line : List Char) : Option Directive :=
  match trim line with
  | '#' :: rest =>
    match trimLeft rest with
    | '@' :: rest =>
      names.findSome? fun (name, make) =>
        match dropPart? name.toList rest with
        | some (c :: value) =>
          let value := trim value
          if isBlank c && !value.isEmpty then some (make (String.ofList value)) else none
        | _ => none
    | _ => none
  | _ => none

end Directive

/-! ## Scripts -/

/-- A set of names: each name once. -/
abbrev Names := List String

namespace Names

def add (names : Names) (name : String) : Names := if names.contains name then names else names ++ [name]

def ofList (names : List String) : Names := names.foldl add []

end Names

/-- A script. Times are in milliseconds. -/
structure Script where
  name : String
  source : String
  statements : List Statement
  sourceFile : Option String := none
  author : Option String := none
  version : Option String := none
  description : Option String := none
  enabled : Bool := true
  compiled : Bool := false
  errors : List String := []
  warnings : List String := []
  usedEvents : Names := []
  definedFunctions : Names := []
  usedVariables : Names := []
  requiredPermissions : Names := []
  requiredPlugins : Names := []
  executions : Nat := 0
  totalMs : Float := 0.0
  averageMs : Float := 0.0
  lastMs : Float := 0.0
  executed : Bool := false
  config : Data := .table []
deriving Inhabited

namespace Script

/-- What a statement adds to the dependencies of its script. -/
def analyze (script : Script) (s : Statement) : Script :=
  match s.clause with
  | .event eventType => { script with usedEvents := script.usedEvents.add eventType }
  | .function name _ => { script with definedFunctions := script.definedFunctions.add name }
  | .variableSet reference _ | .variableAdd reference _ | .variableDelete reference =>
    { script with usedVariables := script.usedVariables.add reference }
  | .command text =>
    { script with
      requiredPermissions := (permissionFor text).toList.foldl Names.add script.requiredPermissions }
  | .condition test | .otherwise (some test) =>
    { script with
      requiredPermissions := (permissionsIn test).foldl Names.add script.requiredPermissions }
  | _ => script

def direct (script : Script) : Directive → Script
  | .author value => { script with author := some value }
  | .version value => { script with version := some value }
  | .description value => { script with description := some value }
  | .requires value => { script with requiredPlugins := script.requiredPlugins.add value }
  | .permission value => { script with requiredPermissions := script.requiredPermissions.add value }

/-- The script with its dependencies and directives found. -/
def make (script : Script) : Script :=
  let analyzed := (Statement.walkAll script.statements).foldl analyze script
  ((lines script.source.toList).filterMap Directive.ofLine?).foldl direct analyzed

/-! ## Look-up -/

/-- The number of statements. -/
def size (script : Script) : Nat := Statement.sizeAll script.statements

/-- The statements with their numbers, each before those of its block. -/
def numbered (script : Script) : List (Nat × Statement) :=
  (Statement.walkAll script.statements).zipIdx.map fun (s, n) => (n, s)

/-- The functions by name with their numbers; a later definition wins. -/
def functions (script : Script) : Dict String (Nat × Statement) :=
  Dict.ofList (script.numbered.filterMap fun (n, s) =>
    match s.clause with
    | .function name _ => some (name, (n, s))
    | _ => none)

/-- The functions in the order of their names, each with its line and its parameters. -/
def signatures (script : Script) : List (String × Int × List String) :=
  let functions := script.functions
  (sortNames functions.keys).filterMap fun name => do
    let (_, f) ← functions.get? name
    match f.clause with
    | .function _ parameters => some (name, f.line, parameters)
    | _ => none

/-- Whether a statement handles an event. -/
def handlesEvent (event : String) (s : Statement) : Bool :=
  match s.clause with
  | .event eventType => eventType == event
  | _ => false

/-- The command with a slash in front. -/
def withSlash (command : String) : List Char :=
  if startsWith command.toList ['/'] then command.toList else '/' :: command.toList

/-- Whether a statement handles a command: the first words agree. -/
def handlesCommand (command : String) (s : Statement) : Bool :=
  match s.clause with
  | .command text => (words text.toList).head? == (words (withSlash command)).head?
  | _ => false

/-- The outermost statements that pass a test. -/
def handlers (script : Script) (handles : Statement → Bool) : List Statement :=
  script.statements.filter handles

def eventHandlers (script : Script) (event : String) : List Statement :=
  script.handlers (handlesEvent event)

def commandHandlers (script : Script) (command : String) : List Statement :=
  script.handlers (handlesCommand command)

/-- The first `n` elements; a negative `n` leaves out as many at the end. -/
private def takeInt {α : Type} (n : Int) (xs : List α) : List α :=
  if 0 ≤ n then xs.take n.toNat else xs.take (xs.length - (-n).toNat)

/-- So many statements are asked for if nothing else is said. -/
def slowestShown : Int := 5

/-- The executed statements with the largest total times, largest first. -/
def slowest (script : Script) (n : Int) : List Statement :=
  let executed := (Statement.walkAll script.statements).filter fun s => s.stats.invocations != 0
  takeInt n (executed.mergeSort fun a b => decide (b.stats.totalMs ≤ a.stats.totalMs))

/-! ## Issues -/

def addError (script : Script) (message : String) : Script :=
  { script with errors := script.errors ++ [message] }

def addWarning (script : Script) (message : String) : Script :=
  { script with warnings := script.warnings ++ [message] }

def clearIssues (script : Script) : Script := { script with errors := [], warnings := [] }

def hasErrors (script : Script) : Bool := !script.errors.isEmpty

def hasIssues (script : Script) : Bool := !script.errors.isEmpty || !script.warnings.isEmpty

def allIssues (script : Script) : List String :=
  script.errors.map (fun e => s!"ERROR: {e}") ++ script.warnings.map fun w => s!"WARNING: {w}"

/-! ## Totals -/

def recordExecution (script : Script) (ms : Float) : Script :=
  let total := script.totalMs + ms
  { script with
    executions := script.executions + 1
    totalMs := total
    averageMs := total / Float.ofNat (script.executions + 1)
    lastMs := ms
    executed := true }

/-- An execution of the `n`-th statement. -/
def recordStatement (script : Script) (n : Nat) (ms : Float) : Script :=
  { script with statements := Statement.recordAt script.statements n ms }

private def lowerBool (b : Bool) : String := if b then "true" else "false"

/-- What a script reports about itself. -/
structure Statistics where
  name : String
  statements : Nat
  functions : Nat
  events : Nat
  variableNames : Nat
  enabled : Bool
  compiled : Bool
  errors : List String
  warnings : List String
  executions : Nat
  averageMs : Float

/-- The facts about a script; only its outermost statements are counted. -/
def statistics (script : Script) : Statistics where
  name := script.name
  statements := script.statements.length
  functions := script.definedFunctions.length
  events := script.usedEvents.length
  variableNames := script.usedVariables.length
  enabled := script.enabled
  compiled := script.compiled
  errors := script.errors
  warnings := script.warnings
  executions := script.executions
  averageMs := script.averageMs

/-- The facts by name. -/
def Statistics.facts (s : Statistics) : List (String × Data) :=
  [("name", .text s.name), ("statements", .int s.statements), ("functions", .int s.functions),
   ("events", .int s.events), ("variables", .int s.variableNames), ("enabled", .bool s.enabled),
   ("compiled", .bool s.compiled), ("errors", .list (s.errors.map .text)),
   ("warnings", .list (s.warnings.map .text)), ("executions", .int s.executions),
   ("average_duration_ms", .float s.averageMs)]

/-- Everything about a script by name, its own settings apart. Of its file only the name is told, and sets
of names are sorted. -/
def facts (script : Script) : List (String × Data) :=
  let texts (names : List String) : Data := .list (names.map .text)
  let orNull (text : Option String) : Data := (text.map .text).getD .null
  let file := script.sourceFile.map fun path =>
    String.ofList ((Text.splitOn ['/'] path.toList).getLast?.getD [])
  [("name", .text script.name), ("author", orNull script.author), ("version", orNull script.version),
   ("description", orNull script.description), ("source_file", orNull file),
   ("enabled", .bool script.enabled), ("compiled", .bool script.compiled),
   ("errors", texts script.errors), ("warnings", texts script.warnings),
   ("used_events", texts (sortNames script.usedEvents)),
   ("defined_functions", texts (sortNames script.definedFunctions)),
   ("used_variables", texts (sortNames script.usedVariables)),
   ("required_permissions", texts (sortNames script.requiredPermissions)),
   ("required_plugins", texts (sortNames script.requiredPlugins)),
   ("execution_count", .int script.executions), ("total_duration_ms", .float script.totalMs),
   ("average_duration_ms", .float script.averageMs), ("last_duration_ms", .float script.lastMs),
   ("executed", .bool script.executed), ("statements", .int script.size)]

/-- A report of the script, a line for each fact. -/
def summary (script : Script) : String :=
  let facts := script.statistics
  let lines :=
    [s!"Script: {facts.name}",
     s!"Statements: {facts.statements}",
     s!"Functions: {facts.functions}",
     s!"Events: {facts.events}",
     s!"Variables: {facts.variableNames}",
     s!"Enabled: {lowerBool facts.enabled}",
     s!"Compiled: {lowerBool facts.compiled}",
     s!"Errors: {facts.errors.length}",
     s!"Warnings: {facts.warnings.length}",
     s!"Executions: {facts.executions}"] ++
    (if 0 < facts.executions then
      [s!"Avg Execution Time: {Number.fixedText 2 facts.averageMs}ms"] else [])
  "\n".intercalate lines ++ "\n"

/-- An independent copy whose counters, totals and issues start afresh. -/
def freshCopy (script : Script) : Script :=
  make
    { name := script.name
      source := script.source
      statements := Statement.freshAll script.statements
      sourceFile := script.sourceFile
      enabled := script.enabled
      compiled := script.compiled
      config := script.config }

end Script

end EventScript
