import EventScript.Expression
import EventScript.Outcome

/-!
Running statements.

A statement is made ready to run by its `Item`: what it says, where it stands, and the run that carries it
out in a context. `ready` goes through a statement tree and makes items of all its statements; `runBlock`
runs the items of a block one after another until one of them ends the block or the time is up.

Calls of functions go through `invoke`, which is told how many more calls may be nested.

Main definitions:
* `Item`, `ready`: statements made ready to run;
* `runBlock`, `runLoop`: blocks and loops;
* `invoke`: calls of functions, at most `maxCallDepth` deep;
* `Run.execute`, `Run.callFunction`, `Run.timed`: a whole invocation, and its time added up.
-/

namespace EventScript

set_option autoImplicit false

/-- So many calls of functions may be nested. -/
def maxCallDepth : Nat := 64

/-- The animations that a host can be asked for. -/
def animations : List String := ["particle_circle", "particle_explosion", "move"]

/-- What stays the same during an invocation. -/
structure Invocation where
  script : Nat
  config : Config
  functions : Dict String (Nat × Statement)
  deadline : Float

/-- A statement ready to run. The run says how the statement ended and, for a condition, whether its
branch was taken. -/
structure Item where
  node : Nat
  line : Int
  clause : Clause
  run : Nat → Run (Outcome × Option Bool)

/-- A run without anything to say about branches. -/
def plainly (run : Run Outcome) : Run (Outcome × Option Bool) := do
  return (← run, none)

/-- Carries out an item: notes its start, turns a fault into an error, counts the execution and the time
it took, takes the blame for an error that nobody has taken it for, and notes the end. -/
def Item.carryOut (env : Invocation) (item : Item) (ctx : Nat) : Run (Outcome × Option Bool) := do
  let start ← Run.clock
  Run.note (.started env.script item.node ctx start)
  let (outcome, taken) ← do
    match ← Run.attempt (item.run ctx) with
    | .ok result => pure result
    | .error fault =>
      pure (.error (some s!"Statement execution failed: {fault.message}") (some fault) none, none)
  let stop ← Run.clock
  Run.change fun w => w.changeScript env.script fun s =>
    s.recordStatement item.node ((stop - start) * 1000.0)
  let outcome := outcome.blame item.line
  Run.note (.ended env.script item.node ctx outcome)
  return (outcome, taken)

/-! ## Blocks -/

/-- Where a chain of branches stands: no chain, or whether one of its branches was taken. -/
abbrev Chain := Option Bool

/-- Whether an item is passed over: an `else` without a chain, or one whose chain is settled. -/
def passesOver (chain : Chain) (clause : Clause) : Bool :=
  clause.kind = .otherwise ∧ chain ≠ some false

/-- Where the chain stands after an item. -/
def chainAfter (clause : Clause) (taken : Option Bool) : Chain :=
  match clause with
  | .condition _ => taken
  | .otherwise (some _) => some (taken.getD false)
  | _ => none

/-- The error of a run that has used up its time before a line. -/
def timeout (env : Invocation) (line : Int) : Outcome :=
  .error (some s!"Script execution timeout ({env.config.maxExecutionTimeMs}ms)") none (some line)

/-- Runs the items of a block in order, until an outcome ends it or the time is up. -/
def runBlock (env : Invocation) (ends : Outcome → Bool) (ctx : Nat) : Chain → List Item → Run Outcome
  | _, [] => return .done
  | chain, item :: rest => do
    let now ← Run.clock
    if env.deadline < now then
      Run.note (.timedOut env.script item.node ctx)
      return timeout env item.line
    else if passesOver chain item.clause then runBlock env ends ctx chain rest
    else
      let (outcome, taken) ← item.carryOut env ctx
      if ends outcome then return outcome
      else runBlock env ends ctx (chainAfter item.clause taken) rest

/-! ## Loops -/

/-- Local variables that a pass of a loop starts with. -/
abbrev Bindings := List (String × Value)

/-- The passes of a loop: the variables for the pass of a number, counted from zero; none when there are no
more passes. -/
abbrev Passes := Nat → Run (Option Bindings)

def bindAll (ctx : Nat) (bindings : Bindings) : Run Unit :=
  Run.changeContext ctx fun c => bindings.foldl (fun c b => c.setLocal b.1 b.2) c

def loopCompleted (count : Nat) : Outcome := .success (some s!"Loop completed ({count} iterations)") .none

/-- Runs the passes of a loop from number `n` on, at most so many more. -/
def runPasses (ctx : Nat) (passes : Passes) (body : Run Outcome) : Nat → Nat → Run Outcome
  | more, n => do
    match ← passes n with
    | none => return loopCompleted n
    | some bindings =>
      match more with
      | 0 => return loopCompleted n
      | more + 1 =>
        bindAll ctx bindings
        match ← body with
        | .broke => return loopCompleted (n + 1)
        | .continued | .success .. => runPasses ctx passes body more (n + 1)
        | outcome => return outcome

def timesPasses (ctx : Nat) (argument : String) : Run Passes := do
  let text ← Run.access (render ctx argument)
  match ← Run.ofExcept ((Number.ofText? text).mapError Fault.digits) with
  | some (.int count) =>
    return fun n => return if (n : Int) < count then some [("loop-number", .int (n + 1))] else none
  | _ => Run.throw (.loopCount text)

def playerPasses : Run Passes := do
  let entities ← Run.call .onlineEntities
  return fun n => return entities[n]?.map fun entity => [("loop-player", .entity entity)]

/-- The entries of a list as they are when their turn comes; the list must not grow meanwhile. -/
def entryPasses (id size : Nat) : Passes := fun n => do
  let items := (← Run.look).memory.lists.get id
  if items.size ≠ size then Run.throw .listGrew
  else return items.entries[n]?.map fun (index, value) =>
    [("loop-index", .int index), ("loop-value", value)]

def listPasses (ctx : Nat) (argument : String) : Run Passes := do
  let value ← Run.access (Memory.read ctx argument)
  let lists := (← Run.look).memory.lists
  if value.isSomething lists then
    match value with
    | .list id => return entryPasses id (lists.get id).size
    | value => Run.throw (.notAList value.typeName)
  else return fun _ => return none

def whilePasses (ctx : Nat) (condition : String) : Passes := fun _ => do
  return if ← holds ctx condition then some [] else none

/-- The passes of a loop by its source; none for a source that is not supported. -/
def passesOf (ctx : Nat) (source : LoopSource) (argument : String) : Option (Run Passes) :=
  match source with
  | .times => some (timesPasses ctx argument)
  | .players => some playerPasses
  | .list => some (listPasses ctx argument)
  | .whileHolds => some (pure (whilePasses ctx argument))
  | .entities | .unknown => none

/-- Runs a loop. -/
def runLoop (env : Invocation) (ctx : Nat) (source : LoopSource) (argument : String)
    (body : Run Outcome) : Run Outcome :=
  match passesOf ctx source argument with
  | none =>
    return .failed s!"Unsupported loop source: {if argument.isEmpty then source.name else argument}"
  | some header => do
    Run.changeContext ctx Context.enterLoop
    Run.closingWith
      (do
        let passes ← header
        runPasses ctx passes body env.config.maxLoopIterations.toNat 0)
      (Run.changeContext ctx Context.exitLoop)

/-! ## Actions -/

def noTarget (target : String) : Outcome := .failed s!"Target player not found: {target}"

def sendMessage (ctx : Nat) (message target : String) : Run Outcome := do
  match ← resolveEntity ctx target with
  | none => return noTarget target
  | some entity =>
    let text ← Run.access (render ctx message)
    let _ ← Run.call (.sendMessage entity text)
    return .done

def broadcast (ctx : Nat) (message : String) : Run Outcome := do
  let text ← Run.access (render ctx message)
  let _ ← Run.call (.broadcast text)
  return .done

def giveItem (ctx : Nat) (target amount item : String) : Run Outcome := do
  match ← resolveEntity ctx target with
  | none => return noTarget target
  | some entity =>
    let descriptor ← Run.access (render ctx item)
    match ← Run.call (.resolveItem descriptor) with
    | none => return .failed s!"Invalid item: {descriptor}"
    | some found =>
      let text ← Run.access (render ctx amount)
      match ← Run.ofExcept ((Number.ofText? text).mapError Fault.digits) with
      | some (.int n) =>
        if 1 ≤ n then
          let _ ← Run.call (.giveItem entity found n)
          return .done
        else return .failed s!"Invalid item amount: {amount}"
      | _ => return .failed s!"Invalid item amount: {amount}"

def teleport (ctx : Nat) (target location : String) : Run Outcome := do
  match ← resolveEntity ctx target with
  | none => return noTarget target
  | some entity =>
    let descriptor ← Run.access (render ctx location)
    match ← Run.call (.resolveLocation descriptor entity) with
    | none => return .failed s!"Invalid location: {descriptor}"
    | some found =>
      let _ ← Run.call (.teleport entity found)
      return .done

def animate (ctx : Nat) (animation : String) (parameters : List String) : Run Outcome := do
  if animations.contains animation then
    let rendered ← Run.access (parameters.mapM (render ctx))
    let c := (← Run.look).memory.context ctx
    let _ ← Run.call (.playAnimation animation rendered c.entity)
    return .done
  else return .failed s!"Unknown animation type: {animation}"

def cancelEvent (env : Invocation) (ctx : Nat) : Run Outcome := do
  Run.note (.cancelled ctx)
  Run.changeContext ctx fun c => { c with cancelled := true }
  return if env.config.cancelHaltsExecution then .cancelled else .done

/-- Runs a branch if its condition holds; a plain `else` has none. -/
def runBranch (ctx : Nat) (condition : Option String) (body : Run Outcome) :
    Run (Outcome × Option Bool) := do
  let taken ← match condition with
    | none => pure true
    | some condition => holds ctx condition
  if taken then return (← body, some true) else return (.done, some false)

/-! ## Statements -/

/-- Calls of functions by name, with the values of the arguments, from a context. -/
abbrev Caller := String → List Value → Nat → Run Outcome

/-- Calls a function with arguments that are expressions. -/
def callWith (env : Invocation) (caller : Caller) (ctx : Nat) (name : String)
    (arguments : List String) : Run Outcome := do
  if env.functions.contains name then
    let values ← Run.access (arguments.mapM (evaluate ctx))
    caller name values ctx
  else return .failed s!"Unknown function: {name}"

/-- What a statement does, given the run of its block. -/
def perform (env : Invocation) (caller : Caller) (clause : Clause) (source : String)
    (block : (Outcome → Bool) → Nat → Run Outcome) (ctx : Nat) : Run (Outcome × Option Bool) :=
  match clause with
  | .condition test => runBranch ctx (some test) (block Outcome.endsBlock ctx)
  | .otherwise test => runBranch ctx test (block Outcome.endsBlock ctx)
  | .event _ | .command _ => plainly (block Outcome.endsBlock ctx)
  | .function .. => plainly (block Outcome.endsFrame ctx)
  | .loop _ loopSource argument =>
    plainly (runLoop env ctx loopSource argument (block Outcome.endsBlock ctx))
  | .variableSet reference value => plainly do
    let v ← Run.access (evaluate ctx value)
    Run.access (Memory.assign ctx reference v)
    return .done
  | .variableAdd reference value => plainly do
    let v ← Run.access (evaluate ctx value)
    Run.access (Memory.increase ctx reference v)
    return .done
  | .variableDelete reference => plainly do
    let _ ← Run.access (Memory.remove ctx reference)
    return .done
  | .sendMessage message target => plainly (sendMessage ctx message target)
  | .broadcast message => plainly (broadcast ctx message)
  | .giveItem target amount item => plainly (giveItem ctx target amount item)
  | .teleport target location => plainly (teleport ctx target location)
  | .animate animation parameters => plainly (animate ctx animation parameters)
  | .action => plainly do
    let text ← Run.access (render ctx source)
    return .success (some text) .none
  | .returnValue none => plainly (return .returned .none)
  | .returnValue (some value) => plainly do
    let v ← Run.access (evaluate ctx value)
    return .returned v
  | .breakLoop => plainly (return .broke)
  | .continueLoop => plainly (return .continued)
  | .cancelEvent => plainly (cancelEvent env ctx)
  | .call name arguments => plainly (callWith env caller ctx name arguments)

mutual

/-- A statement made ready to run; `node` is its number in the script. -/
def ready (env : Invocation) (caller : Caller) (node : Nat) : Statement → Item
  | ⟨clause, source, line, _, _, block⟩ =>
    { node := node
      line := line
      clause := clause
      run := perform env caller clause source fun ends ctx =>
        runBlock env ends ctx none (readyAll env caller (node + 1) block) }

/-- The statements of a block made ready to run; `node` is the number of the first of them. -/
def readyAll (env : Invocation) (caller : Caller) (node : Nat) : List Statement → List Item
  | [] => []
  | s :: rest => ready env caller node s :: readyAll env caller (node + s.size) rest

end

/-! ## Calls -/

/-- Parameters with the values of the arguments; a missing argument is nothing. -/
def bindParameters : List String → List Value → Bindings
  | [], _ => []
  | parameter :: parameters, [] => (parameter, .none) :: bindParameters parameters []
  | parameter :: parameters, value :: values => (parameter, value) :: bindParameters parameters values

/-- The parameters of a function. -/
def parametersOf (s : Statement) : List String :=
  match s.clause with
  | .function _ parameters => parameters
  | _ => []

/-- Runs a function in a clone of the calling context. What it returns is the payload of a success, and an
event that it cancels is cancelled for the caller too. -/
def runFunction (env : Invocation) (caller : Caller) (node : Nat) (function : Statement)
    (values : List Value) (ctx : Nat) : Run Outcome := do
  let child := (← Run.look).memory.contexts.size
  Run.change fun w => w.changeMemory fun m => m.cloneContext ctx
  bindAll child (bindParameters (parametersOf function) values)
  let (outcome, _) ← (ready env caller node function).carryOut env child
  if ((← Run.look).memory.context child).cancelled then
    Run.changeContext ctx fun c => { c with cancelled := true }
  match outcome with
  | .returned payload => return .success none payload
  | outcome => return outcome

/-- Calls of functions, of which so many more may be nested. -/
def invoke (env : Invocation) : Nat → Caller
  | 0, name, _, _ => return .failed s!"Maximum call depth exceeded calling {name}"
  | more + 1, name, values, ctx =>
    match env.functions.get? name with
    | none => return .failed s!"Unknown function: {name}"
    | some (node, function) => runFunction env (invoke env more) node function values ctx

/-! ## Invocations -/

/-- The invocation of a script that starts now. -/
def invocation (config : Config) (script : Nat) : Run Invocation := do
  let w ← Run.look
  match config.maxExecutionTime? with
  | none => Run.throw .quotientTooLarge
  | some budget =>
    return {
      script := script
      config := config
      functions := (w.script script).functions
      deadline := w.clock + budget }

/-- The entry in the list of errors of a script for an error. -/
def errorEntry (message : Option String) (line : Option Int) : String :=
  let text := message.getD "None"
  match line with
  | some line => if line = 0 then text else s!"Line {line}: {text}"
  | none => text

/-- The outcome of an invocation: a stray break or continue counts as success, a success after a cancelled
event as cancelled, and an error is entered in the script. -/
def finish (script ctx : Nat) (outcome : Outcome) : Run Outcome := do
  let outcome : Outcome := match outcome with
    | .broke | .continued => .done
    | outcome => outcome
  let c := (← Run.look).memory.context ctx
  match outcome with
  | .success .. => return if c.cancelled then .cancelled else outcome
  | .error message _ line =>
    Run.change fun w => w.changeScript script fun s => s.addError (errorEntry message line)
    return outcome
  | _ => return outcome

/-- Which statements of a script run: the outermost ones, all or from one on or those that pass a test, or a
list of statements by their numbers. -/
inductive Selection where
  | all
  | startingAt (first : Nat)
  | which (test : Statement → Bool)
  | listed (nodes : List Nat)

/-- The outermost statements that pass a test, given their places, made ready to run. -/
def outermost (env : Invocation) (takes : Nat → Statement → Bool) (tree : List Statement) : List Item :=
  let items := readyAll env (invoke env maxCallDepth) 0 tree
  ((tree.zip items).zipIdx.filter fun ((s, _), place) => takes place s).map (·.1.2)

/-- The selected statements made ready to run. -/
def selected (env : Invocation) (selection : Selection) (tree : List Statement) : List Item :=
  match selection with
  | .all => outermost env (fun _ _ => true) tree
  | .startingAt first => outermost env (fun place _ => decide (first ≤ place)) tree
  | .which test => outermost env (fun _ s => test s) tree
  | .listed nodes => nodes.filterMap fun node =>
    ((Statement.walkAll tree)[node]?).map (ready env (invoke env maxCallDepth) node)

namespace Run

/-- Runs the selected statements of a script in a context, unless the script is disabled. -/
def execute (config : Config) (script ctx : Nat) (selection : Selection) : Run Outcome := do
  let s := (← Run.look).script script
  if s.enabled then
    let env ← invocation config script
    let outcome ← runBlock env Outcome.endsFrame ctx none (selected env selection s.statements)
    finish script ctx outcome
  else return .failed s!"Script '{s.name}' is disabled"

/-- Calls a function of a script from a context. -/
def callFunction (config : Config) (script ctx : Nat) (name : String) (values : List Value) :
    Run Outcome := do
  let env ← invocation config script
  let outcome ← invoke env maxCallDepth name values ctx
  finish script ctx outcome

/-- A run of a script whose duration is added to the totals of the script and to those of the world. -/
def timed (script : Nat) (run : Run Outcome) : Run Outcome := do
  let start ← Run.clock
  let outcome ← do
    match ← Run.attempt run with
    | .ok outcome => pure outcome
    | .error fault =>
      let message := s!"Script execution failed: {fault.message}"
      Run.change fun w => w.changeScript script fun s => s.addError message
      pure (.error (some message) (some fault) none)
  let stop ← Run.clock
  let ms := (stop - start) * 1000.0
  Run.change fun w =>
    { w.changeScript script (·.recordExecution ms) with totals := w.totals.record ms }
  return outcome

end Run

end EventScript
