import EventScript.Engine.Execution

/-!
Running scripts on workers.

A job runs on a worker as soon as one is free. Where host calls belong to the main thread, a job is blocked
at each of its host calls until the main thread gets to it, or until the time for that is up. The main
thread makes the calls that wait when it drains its queue.

Main definitions:
* `Engine.submit`: a script handed to the workers;
* `Engine.drain`: the main thread makes the calls that wait;
* `Engine.await`: the main thread waits for a job, draining its queue or not;
* `Engine.executeSync`: a source text that another thread hands in, which waits for the main thread;
* `Engine.tick`, `runLater`, `runRepeating`: scheduled scripts;
* `Engine.shutdown`.
-/

namespace EventScript.Engine

set_option autoImplicit false

/-! ## Workers -/

def setJob (e : Engine) (job : Nat) (state : JobState) : Engine :=
  { e with jobs := e.jobs.modify job fun j => { j with state := state } }

def isBlocked (job : Job) : Bool :=
  match job.state with
  | .blocked .. => true
  | _ => false

def isWaiting (job : Job) : Bool :=
  match job.state with
  | .waiting => true
  | _ => false

/-- Whether a worker is free. A worker is busy with each blocked job. -/
def hasFreeWorker (e : Engine) : Bool :=
  decide (((e.jobs.cells.toList.filter isBlocked).length : Int) < e.config.workerThreads)

/-- The outcome of what a process ended with. -/
def outcomeOf : Except Fault Outcome → Outcome
  | .ok outcome => outcome
  | .error fault => .error (some fault.message) (some fault) none

/-- When the main thread drains its queue for a thread that waits for an errand: not at all, before that thread
has begun to wait, or while it waits. -/
inductive Drains where
  | never
  | early
  | late
deriving DecidableEq, Repr

/-- Why a thread cannot wait for an errand of the main thread; none if it can. It would have to wait for the time
budget of a run, unless the errand is done by then. -/
def waitFault? (e : Engine) (drains : Drains) : Option Fault :=
  match e.config.maxExecutionTime? with
  | none => some .quotientTooLarge
  | some budget => if drains = .early || Config.canWait budget then none else some .waitTooLong

/-- A job goes on as a process: it ends, or it is blocked and its host call is queued. Where no thread can wait
for the call, the job goes on with a fault, and the call stays in the queue. -/
def settle (e : Engine) (job : Nat) : Proc World (Except Fault Outcome) → Engine
  | .done world result => { e with world := world }.setJob job (.finished (outcomeOf result))
  | .ask world call resume =>
    match e.waitFault? .late with
    | none =>
      { e with world := world, queue := e.queue.submit (.call job) }.setJob job
        (.blocked e.queue.promises.size (.ask world call resume))
    | some fault =>
      settle { e with world := world, queue := e.queue.submit (.unwaited call) } job
        (resume world (.error (.unwaited fault)))

/-- A run on a worker, which makes the host calls itself if it may. -/
def runOnWorker (e : Engine) (job : Nat) (run : Run Outcome) : Engine :=
  if e.queued then e.settle job (run e.world)
  else
    let (e, outcome) := e.runNow run
    e.setJob job (.finished outcome)

/-- Runs a script on a worker; after the shutdown that is refused. -/
def runScript (e : Engine) (job script ctx : Nat) : Engine :=
  if e.closed then e.setJob job (.finished shutDown)
  else e.runOnWorker job (timedRun e.config script ctx .all)

/-- A worker begins with a job. -/
def begin (e : Engine) (job : Nat) : Engine :=
  match (e.jobs.get job).work with
  | .script script ctx => e.runScript job script ctx
  | .task =>
    let (scheduler, next) := e.scheduler.start
    let e := { e with scheduler := scheduler }
    match next with
    | none => e.setJob job (.finished .done)
    | some (_, .reap) => e.cleanup.1.setJob job (.finished .done)
    | some (_, .script script ctx) => e.runScript job script ctx
    | some (_, .fresh script make) =>
      let (c, memory) := make.run e.world.memory
      let e := e.changeWorld fun w => { w with memory := memory }
      let (e, ctx) := e.newContext { c with isAsync := true }
      e.runScript job script ctx

/-- Free workers begin with the jobs that wait, in the order in which they came in. -/
def fill (e : Engine) : Engine :=
  (List.range e.jobs.size).foldl (fun e job =>
    if isWaiting (e.jobs.get job) && e.hasFreeWorker then e.begin job else e) e

/-- A new job for the workers, and its number. -/
def enqueue (e : Engine) (work : Work) : Engine × Nat :=
  ({ e with jobs := e.jobs.push { work := work } }.fill, e.jobs.size)

/-! ## The main thread -/

/-- The host makes the call for which a blocked job waits, and the job goes on. -/
def serveJob (e : Engine) (job : Nat) : Engine :=
  match (e.jobs.get job).state with
  | .blocked _ (.ask _ call resume) =>
    let (world, reply) := e.world.serve e.host call
    ({ e with world := world }.settle job (resume world reply)).fill
  | _ => e

/-- The main thread does an errand, unless it was cancelled. -/
def doErrand (e : Engine) (ticket : Nat) (errand : Errand) : Engine :=
  if e.queue.isOpen ticket then
    match errand with
    | .call job =>
      { e with queue := e.queue.settle ticket (.ok .done) }.serveJob job
    | .unwaited call =>
      { e with world := (e.world.serve e.host call).1, queue := e.queue.settle ticket (.ok .done) }
    | .inline source entity =>
      let (e, outcome) := e.executeInline source entity
      { e with queue := e.queue.settle ticket (.ok outcome) }
  else e

/-- The main thread does the errands that wait now, as many as allowed; says how many were taken out. -/
def drain (e : Engine) (limit : Option Int) : Engine × Nat :=
  let (errands, queue) := e.queue.take limit
  (errands.foldl (fun e (ticket, errand) => e.doErrand ticket errand) { e with queue := queue },
    errands.length)

/-- The errands of a drain while a job is carried through: those of others are done, and for the job's own
errand its host call is made. -/
def drainFor (e : Engine) (job : Nat) (call : HostCall) : Engine × call.Reply :=
  let (errands, queue) := e.queue.take none
  errands.foldl (fun (e, reply) (ticket, errand) =>
    match errand with
    | .call other =>
      if other = job ∧ e.queue.isOpen ticket then
        let (world, answer) := e.world.serve e.host call
        ({ e with world := world, queue := e.queue.settle ticket (.ok .done) }, answer)
      else (e.doErrand ticket errand, reply)
    | errand => (e.doErrand ticket errand, reply))
    ({ e with queue := queue }, .error .timedOut)

/-- Carries a blocked job through while the main thread drains its queue again and again. -/
def carry (job : Nat) : Proc World (Except Fault Outcome) → Engine → Engine
  | .done world result, e => (e.settle job (.done world result)).fill
  | .ask _ call resume, e =>
    let (e, reply) := e.drainFor job call
    carry job (resume e.world reply) (e.settle job (resume e.world reply))

/-- Lets the host calls of a blocked job run out of time, one after another. -/
def expire (job : Nat) : Proc World (Except Fault Outcome) → Engine → Engine
  | .done world result, e => (e.settle job (.done world result)).fill
  | .ask _ call resume, e =>
    let e := match (e.jobs.get job).state with
      | .blocked ticket _ => { e with queue := (e.queue.cancel ticket).1 }
      | _ => e
    let reply : call.Reply := .error .timedOut
    expire job (resume e.world reply) (e.settle job (resume e.world reply))

/-- Lets a blocked job go on to its end, with the main thread draining its queue or not. -/
def finishJob (e : Engine) (draining : Bool) (job : Nat) : Engine :=
  match (e.jobs.get job).state with
  | .blocked _ rest => if draining then carry job rest e else expire job rest e
  | _ => e

def isOver (e : Engine) (job : Nat) : Bool :=
  match (e.jobs.get job).state with
  | .finished _ | .cancelled => true
  | _ => false

/-- What came of a job; none if it was cancelled. -/
def result? (e : Engine) (job : Nat) : Option Outcome :=
  match (e.jobs.get job).state with
  | .finished outcome => some outcome
  | _ => none

/-- The main thread drains its queue until all jobs are over. -/
def finishAll (e : Engine) : Engine :=
  (List.range e.jobs.size).foldl (fun e job => e.finishJob true job) e

/-- The main thread waits for a job. While it drains its queue the other jobs get on as well, and it goes
on draining until all of them are over. Without draining, jobs that came in before may have to run out of
time first. -/
def await (e : Engine) (job : Nat) (draining : Bool) : Engine × Option Outcome :=
  let e := if draining then e.finishAll
    else (List.range (job + 1)).foldl (fun e earlier =>
      if e.isOver job then e else e.finishJob false earlier) e
  (e, e.result? job)

/-! ## Scripts on workers -/

/-- Hands a script to the workers. Without asynchronous execution it is run at once. -/
def submit (e : Engine) (script : Nat) (ctx : Option Nat) : Except EngineError (Engine × Nat) := do
  if e.closed then throw .closed
  let (e, ctx) := e.contextOrNew ctx
  if e.config.asyncExecution then
    let e := e.changeContext ctx fun c => { c with isAsync := true }
    return e.enqueue (.script script ctx)
  else
    let (e, outcome) := e.execute script (some ctx)
    return ({ e with jobs := e.jobs.push { work := .script script ctx, state := .finished outcome } },
      e.jobs.size)

/-- Makes a script of a source text on a worker, for which the main thread waits. -/
def parseOnWorker (e : Engine) (name source : String) : Engine × Except EngineError Nat :=
  if e.closed then (e, .error .closed)
  else
    match e.parse name source none with
    | .ok (e, script) => (e.finishAll, .ok script)
    | .error refusal => (e.finishAll, .error refusal)

/-- A source text is handed in for the main thread, which drains its queue then, if it does so at all. -/
def handIn (e : Engine) (source : String) (entity : Option Entity) (drains : Drains) : Engine :=
  let e := { e with queue := e.queue.submit (.inline source entity) }
  if drains = .never then e else (e.drain none).1

/-- Runs a source text on the main thread for another thread that waits for it. If nobody drains the queue
the other thread gives up, and its errand is cancelled. A thread that cannot wait fails, and its errand is left as
it is. -/
def executeSync (e : Engine) (source : String) (entity : Option Entity) (otherThread : Bool) (drains : Drains) :
    Engine × Except Fault Outcome :=
  if e.queued && otherThread then
    let after := e.handIn source entity drains
    match e.waitFault? drains, after.queue.promises.get e.queue.promises.size with
    | some fault, _ => (after, .error fault)
    | none, .kept outcome => (after, .ok outcome)
    | none, _ =>
      ({ after with queue := (after.queue.cancel e.queue.promises.size).1 },
        .ok (.failed "Sync execution failed: timed out"))
  else (e.executeInline source entity).map id .ok

/-! ## Scheduled scripts -/

def scheduled (e : Engine) (job : TaskJob) (delay : Number) (period : Option Number)
    (name : String) : Except EngineError (Engine × Nat) :=
  match e.scheduler.schedule job delay period (some name) with
  | .ok (scheduler, id) => .ok ({ e with scheduler := scheduler }, id)
  | .error refusal => .error (.schedule refusal)

/-- Runs a script once after a delay. -/
def runLater (e : Engine) (script : Nat) (delay : Number) (ctx : Option Nat) :
    Except EngineError (Engine × Nat) := do
  if e.closed then throw .closed
  let (e, ctx) := e.contextOrNew ctx
  let e := e.changeContext ctx fun c => { c with isAsync := true }
  e.scheduled (.script script ctx) delay none s!"{(e.world.script script).name}-later"

/-- Runs a script after a delay and then after every period, each time in a context made for that run. -/
def runRepeating (e : Engine) (script : Nat) (delay period : Number) (make : StateM Memory Context) :
    Except EngineError (Engine × Nat) := do
  if e.closed then throw .closed
  e.scheduled (.fresh script make) delay (some period)
    s!"{(e.world.script script).name}-repeating"

/-- A task that was handed over is run by a worker, and the main thread waits for it. -/
def runTask (scheduler : Scheduler TaskJob) (e : Engine) : Scheduler TaskJob × Engine :=
  let (e, job) := { e with scheduler := scheduler }.enqueue .task
  let (e, _) := e.await job true
  (e.scheduler, e)

/-- Lets so many seconds of the timers pass. -/
def tick (e : Engine) (seconds : Float) : Engine :=
  let (scheduler, e) := e.scheduler.tick runTask e seconds
  { e with scheduler := scheduler }

def cancelTask (e : Engine) (id : Nat) : Engine := { e with scheduler := e.scheduler.cancel id }

/-! ## Shutdown -/

/-- Whether host calls for which nobody drains the queue run out of time within so many seconds. -/
def callsExpireWithin (e : Engine) (seconds : Float) : Bool :=
  match e.config.maxExecutionTime? with
  | some budget => decide (budget < seconds)
  | none => false

/-- Nothing new is run any more. Blocked jobs whose host calls run out of time within the grace period come
to their end; if jobs are left then, those without a worker are cancelled. -/
def shutdown (e : Engine) : Engine :=
  if e.closed then e
  else
    let e := { e with closed := true, scheduler := e.scheduler.shutdown }
    let e := if e.callsExpireWithin e.config.shutdownGraceSeconds then
        (List.range e.jobs.size).foldl (fun e job => e.finishJob false job) e
      else e
    (List.range e.jobs.size).foldl (fun e job =>
      if isWaiting (e.jobs.get job) then e.setJob job .cancelled else e) e

end EventScript.Engine
