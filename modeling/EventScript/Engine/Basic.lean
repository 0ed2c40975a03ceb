import EventScript.MainQueue
import EventScript.Run
import EventScript.Scheduler
import EventScript.Text.Lines

/-!
The script engine.

An engine holds the world, the registry of scripts by name, the scheduler, the jobs of its workers and the
work queue of the main thread. This module has its state, the registry and the files that scripts come
from; `Engine.Execution` runs scripts, `Engine.Pool` runs them on workers.

Main definitions:
* `Engine`: the state of an engine;
* `Engine.parse`, `load`, `loadFile`, `reload`, `unload`: scripts in and out of the registry;
* `FileContent`, `Engine.writeFile`, `readFile`, `deleteFile`: the files that scripts come from;
* `EngineError`: why an operation was refused.
-/

namespace EventScript

set_option autoImplicit false

/-- What a scheduled task does. -/
inductive TaskJob where
  /-- Forget stale variables. -/
  | reap
  /-- Run a script in a context. -/
  | script (script context : Nat)
  /-- Run a script in a context that is made anew each time. -/
  | fresh (script : Nat) (make : StateM Memory Context)

/-- What a worker is asked to do: to run a script in a context, or the task that is next. -/
inductive Work where
  | script (script context : Nat)
  | task

/-- Work that the main thread is asked to do: to make the host call for which a job waits, to make one for which
nobody waits any more, or to run a source text. -/
inductive Errand where
  | call (job : Nat)
  | unwaited (call : HostCall)
  | inline (source : String) (entity : Option Entity)

/-- How far a job is. A blocked job waits for its host call, which has a number in the queue of the main
thread. -/
inductive JobState where
  | waiting
  | blocked (ticket : Nat) (rest : Proc World (Except Fault Outcome))
  | finished (outcome : Outcome)
  | cancelled

/-- A job for the workers. -/
structure Job where
  work : Work
  state : JobState := .waiting

instance : Inhabited Job := ⟨{ work := .task }⟩

/-- What is in a file: a text, or bytes that are none, with what is wrong with them. -/
inductive FileContent where
  | text (content : String)
  | bytes (flaw : String)
deriving DecidableEq, Repr

instance : Coe String FileContent := ⟨.text⟩

/-- The state of an engine. If `queued`, host calls belong to the main thread and other threads have to
queue for them; else every thread makes them itself. -/
structure Engine where
  config : Config
  host : Host
  queued : Bool := false
  world : World := {}
  registry : Dict String Nat := {}
  files : Dict String FileContent := {}
  scheduler : Scheduler TaskJob := {}
  jobs : Table Job := {}
  queue : MainQueue Errand Unit Outcome := {}
  closed : Bool := false

/-- Why an operation of an engine was refused. -/
inductive EngineError where
  | closed
  | tooManyStatements (script : String) (count : Nat) (limit : Int)
  | unknownScript (name : String)
  | noFile (file : String)
  | isFolder (file : String)
  | nullInPath
  | notText (flaw : String)
  | schedule (refusal : ScheduleRefusal)
deriving DecidableEq, Repr

namespace EngineError

def message : EngineError → String
  | closed => "Script engine is shut down"
  | tooManyStatements script count limit => (Fault.tooManyStatements script count limit).message
  | unknownScript name => s!"No script named '{name}'"
  | noFile file | isFolder file => file
  | nullInPath => "embedded null byte"
  | notText flaw => flaw
  | schedule refusal => refusal.message

end EngineError

/-- What is said about something that was passed as a host and is none. -/
def notAHost (type : String) : String := s!"host does not implement HostServices: {type}"

namespace Engine

/-- An engine that is just started: with a reaper as its first task, if it has an interval. -/
def start (config : Config) (host : Host) (queued : Bool) (memory : Memory) : Engine :=
  let engine : Engine :=
    { config := config, host := host, queued := queued
      world := { memory := memory } }
  if 0.0 < config.reaperIntervalSeconds then
    let interval := Number.float config.reaperIntervalSeconds
    match engine.scheduler.schedule .reap interval (some interval) (some "variable-reaper") with
    | .ok (scheduler, _) => { engine with scheduler := scheduler }
    | .error _ => engine
  else engine

def changeWorld (e : Engine) (change : World → World) : Engine := { e with world := change e.world }

def changeContext (e : Engine) (ctx : Nat) (change : Context → Context) : Engine :=
  e.changeWorld fun w => w.changeContext ctx change

/-- The engine with a new context, and the number of the context. -/
def newContext (e : Engine) (c : Context) : Engine × Nat :=
  (e.changeWorld fun w => w.changeMemory fun m => m.newContext c, e.world.memory.contexts.size)

/-- The given context, or a new one. -/
def contextOrNew (e : Engine) : Option Nat → Engine × Nat
  | some ctx => (e, ctx)
  | none => e.newContext {}

/-! ## Registry -/

/-- The script of a source text, not yet registered. Its issues become warnings. -/
def build (config : Config) (name source : String) (file : Option String) : Except EngineError Script :=
  let report := Source.parse source
  let script := Script.make
    { name := name, source := source, statements := report.statements, sourceFile := file }
  let warned := (report.errors ++ report.warnings).foldl Script.addWarning script
  if config.maxScriptStatements < (warned.size : Int) then
    .error (.tooManyStatements name warned.size config.maxScriptStatements)
  else .ok { warned with compiled := true }

/-- Makes a script of a source text; it gets a number but is not registered. -/
def parse (e : Engine) (name source : String) (file : Option String) :
    Except EngineError (Engine × Nat) := do
  if e.closed then throw .closed
  let script ← build e.config name source file
  return (e.changeWorld fun w => { w with scripts := w.scripts.push script }, e.world.scripts.size)

/-- Makes a script and registers it under its name, in place of any other. -/
def load (e : Engine) (name source : String) (file : Option String) :
    Except EngineError (Engine × Nat) := do
  let (e, id) ← e.parse name source file
  return ({ e with registry := e.registry.put name id }, id)

/-! ## Files -/

/-- The names along a path. A single point stands for the folder where the path is. -/
def pathNames (path : String) : List (List Char) :=
  (Text.splitOn ['/'] path.toList).filter fun name => !name.isEmpty && name != ['.']

/-- A path without what does not matter in it. -/
def tidyPath (path : String) : String := String.ofList (Text.glue ['/'] (pathNames path))

/-- The name of a file without its last extension. -/
def stem (file : String) : String :=
  let name := (pathNames file).getLast?.getD []
  let behind := name.reverse.takeWhile (· != '.')
  let front := name.take (name.length - behind.length - 1)
  if behind.isEmpty || front.isEmpty || !name.contains '.' then String.ofList name
  else String.ofList front

/-- The place of a file. There are no folders but the one that the files are in. -/
def placeOf (file : String) : Except EngineError String :=
  if file.toList.contains '\x00' then .error .nullInPath
  else
    match pathNames file with
    | [] => .error (.isFolder file)
    | [_] => .ok (tidyPath file)
    | _ => .error (.noFile file)

def writeFile (e : Engine) (file : String) (content : FileContent) : Except EngineError Engine := do
  return { e with files := e.files.put (← placeOf file) content }

/-- The content of a file. -/
def contentOf (e : Engine) (file : String) : Except EngineError FileContent := do
  match e.files.get? (← placeOf file) with
  | some content => return content
  | none => throw (.noFile file)

/-- The text in a file. -/
def readFile (e : Engine) (file : String) : Except EngineError String := do
  match ← e.contentOf file with
  | .text content => return content
  | .bytes flaw => throw (.notText flaw)

def deleteFile (e : Engine) (file : String) : Except EngineError Engine := do
  let _ ← e.contentOf file
  return { e with files := e.files.erase (tidyPath file) }

/-- Loads a script from a file, under the name of the file. -/
def loadFile (e : Engine) (file : String) : Except EngineError (Engine × Nat) := do
  let content ← e.readFile file
  e.load (stem file) (String.ofList (Text.unifyBreaks content.toList)) (some (tidyPath file))

def get? (e : Engine) (name : String) : Option Nat := e.registry.get? name

/-- Loads a registered script again: from its file if there is one, else from its source. -/
def reload (e : Engine) (name : String) : Except EngineError (Engine × Nat) :=
  match e.get? name with
  | none => .error (.unknownScript name)
  | some id =>
    let script := e.world.script id
    match script.sourceFile.filter e.files.contains with
    | some file => e.loadFile file
    | none => e.load name script.source script.sourceFile

/-- Removes a script from the registry, and says whether it was there. -/
def unload (e : Engine) (name : String) : Engine × Bool :=
  ({ e with registry := e.registry.erase name }, e.registry.contains name)

/-! ## Statistics -/

/-- What an engine reports about itself. -/
structure Statistics where
  executions : Nat
  totalMs : Float
  averageMs : Float
  loaded : Nat
  enabled : Nat
  tasks : Nat
  store : Store.Statistics

/-- The facts by name. -/
def Statistics.facts (s : Statistics) : List (String × Data) :=
  [("total_executions", .int s.executions), ("total_duration_ms", .float s.totalMs),
   ("average_duration_ms", .float s.averageMs), ("loaded_scripts", .int s.loaded),
   ("enabled_scripts", .int s.enabled), ("scheduled_tasks", .int s.tasks),
   ("variables", .table s.store.facts)]

def statistics (e : Engine) : Statistics where
  executions := e.world.totals.executions
  totalMs := e.world.totals.totalMs
  averageMs := e.world.totals.averageMs
  loaded := e.registry.size
  enabled := (e.registry.values.filter fun id => (e.world.script id).enabled).length
  tasks := e.scheduler.active
  store := e.world.memory.store.statistics

/-- Forgets stale variables, and says how many accesses were forgotten. -/
def cleanup (e : Engine) : Engine × Nat :=
  let (memory, count) := e.world.memory.reap
  (e.changeWorld fun w => { w with memory := memory }, count)

end Engine

end EventScript
