import EventScript.Engine.Basic

/-!
Running scripts on the main thread.

On the main thread the host answers at once, so a run is carried through in one go.

Main definitions:
* `Engine.execute`, `executeInline`: a whole script;
* `Engine.fireEvent`, `runCommand`: the handlers of all enabled scripts;
* `Engine.callFunction`: one function of a script.
-/

namespace EventScript.Engine

set_option autoImplicit false

/-- Carries a run through, with a host that answers at once. -/
def runNow (e : Engine) (run : Run Outcome) : Engine × Outcome :=
  let (world, result) := (run e.world).complete (World.serve e.host)
  let outcome := match result with
    | .ok outcome => outcome
    | .error fault => .error (some fault.message) (some fault) none
  ({ e with world := world }, outcome)

/-- The outcome of everything after the shutdown. -/
def shutDown : Outcome := .failed "Script engine is shut down"

/-- A timed run of the selected statements of a script. -/
def timedRun (config : Config) (script ctx : Nat) (selection : Selection) : Run Outcome :=
  Run.timed script (Run.execute config script ctx selection)

/-- Runs a whole script in a context, by default in a new one. -/
def execute (e : Engine) (script : Nat) (ctx : Option Nat) : Engine × Outcome :=
  if e.closed then (e, shutDown)
  else
    let (e, ctx) := e.contextOrNew ctx
    e.runNow (timedRun e.config script ctx .all)

/-- The name of scripts that are run once and thrown away. -/
def inlineName : String := "inline-N"

/-- A text in which the numbers of such scripts are left out of their quoted names. -/
def withoutNumbers (message : String) : String :=
  let find (_ : Option Char) (cs : List Char) : Option (Unit × Nat) := do
    let rest ← Text.dropPart? "'inline-".toList cs
    let digits := rest.takeWhile Text.isDigit
    if digits.isEmpty || rest[digits.length]? != some '\'' then none
    else some ((), digits.length + "'inline-'".length)
  String.ofList (Text.replaceAll find (fun _ => s!"'{inlineName}'".toList) message.toList)

/-- Makes a script of a source text and runs it once. -/
def executeInline (e : Engine) (source : String) (entity : Option Entity) : Engine × Outcome :=
  match e.parse inlineName source none with
  | .ok (e, script) =>
    let (e, ctx) := e.newContext { entity := entity }
    e.execute script (some ctx)
  | .error (.tooManyStatements name count limit) =>
    let fault := Fault.tooManyStatements name count limit
    (e, .error (some fault.message) (some fault) none)
  | .error _ => (e, shutDown)

/-- Runs the selected statements of a script in a clone of a context that is changed first. Gives the
number of the clone. -/
def runInClone (e : Engine) (script base : Nat) (prepare : Context → Context) (selection : Selection) :
    Engine × Nat × Outcome :=
  let ctx := e.world.memory.contexts.size
  let e := e.changeWorld fun w => w.changeMemory fun m =>
    (m.cloneContext base).changeContext ctx prepare
  let (e, outcome) := e.runNow (timedRun e.config script ctx selection)
  (e, ctx, outcome)

/-- Runs the handlers for an event in one script after another, each in a clone of the context. If one of
them cancels the event, it is cancelled in the context itself. -/
def fireIn (base : Nat) (event : String) (e : Engine) : List Nat → Engine × List Outcome
  | [] => (e, [])
  | id :: rest =>
    let script := e.world.script id
    if script.enabled && !(script.eventHandlers event).isEmpty then
      let (e, ctx, outcome) := e.runInClone id base (fun c => c) (.which (Script.handlesEvent event))
      let e := if (e.world.memory.context ctx).cancelled then
          e.changeContext base fun c => { c with cancelled := true }
        else e
      let (e, outcomes) := fireIn base event e rest
      (e, outcome :: outcomes)
    else fireIn base event e rest

/-- Runs the handlers for an event in all enabled scripts. -/
def fireEvent (e : Engine) (event : String) (ctx : Option Nat) : Engine × List Outcome :=
  let (e, base) := e.contextOrNew ctx
  let e := e.changeContext base fun c => { c with eventType := some event }
  fireIn base event e e.registry.values

/-- The words behind a command as local variables `arg-1`, `arg-2` and so on. -/
def bindWords (words : List (List Char)) (c : Context) : Context :=
  words.zipIdx.foldl (fun c (word, n) => c.setLocal s!"arg-{n + 1}" (.text (String.ofList word))) c

def commandIn (base : Nat) (command : String) (e : Engine) : List Nat → Engine × List Outcome
  | [] => (e, [])
  | id :: rest =>
    let script := e.world.script id
    if script.enabled && !(script.commandHandlers command).isEmpty then
      let arguments := (Text.words command.toList).drop 1
      let (e, _, outcome) :=
        e.runInClone id base (bindWords arguments) (.which (Script.handlesCommand command))
      let (e, outcomes) := commandIn base command e rest
      (e, outcome :: outcomes)
    else commandIn base command e rest

/-- Runs the handlers for a command in all enabled scripts, each in a clone of the context. -/
def runCommand (e : Engine) (command : String) (ctx : Option Nat) : Engine × List Outcome :=
  let (e, base) := e.contextOrNew ctx
  commandIn base command e e.registry.values

/-- Calls one function of a script; the payload is what it returns. -/
def callFunction (e : Engine) (script : Nat) (name : String) (values : List Value)
    (ctx : Option Nat) : Engine × Outcome :=
  if e.closed then (e, shutDown)
  else
    let (e, ctx) := e.contextOrNew ctx
    e.runNow (Run.timed script (Run.callFunction e.config script ctx name values))

/-- Runs a source text once on an engine of its own, on which time stands still. -/
def runOnce (config : Config) (host : Host) (source : String) (entity : Option Entity) :
    Engine × Outcome :=
  let config := { config with reaperIntervalSeconds := 0.0 }
  let host := { host with cost := fun _ _ => none }
  (start config host false {}).executeInline source entity

end EventScript.Engine
