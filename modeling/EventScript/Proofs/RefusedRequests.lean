import EventScript.Proofs.EngineOperations

/-!
Requests that are refused.

Scripts are made, loaded and handed over in several steps, and a request may be refused at each of them: the
engine was shut down, there is no such script or file, the source text has too many statements, a period is not
positive. Here the steps are taken one by one, and what a step has changed stays changed when a later one is
refused. Still a request that is refused leaves everything as it was, since no step that may be refused comes
after one that changes something; where the scheduler is asked late, it is open because the engine is.

Main definitions:
* `Engine.Steps`: something done step by step that may be refused on the way;
* `Engine.Request`, `Engine.Request.steps`: the requests that may be refused, and their steps;
* `Engine.atomic`: something done as a whole or not at all.

Main facts:
* `Engine.Steps.on_parse`, `on_load` and so on: the steps of a request do it as a whole or not at all;
* `Engine.refused_requests_change_nothing`: the same of all requests after any operations.
-/

namespace EventScript

set_option autoImplicit false

namespace Engine

/-! ## Steps -/

/-- Something done to an engine step by step. A refusal leaves what was changed before it. -/
abbrev Steps := ExceptT EngineError (StateM Engine)

/-- The answer of steps, and the engine after them. -/
def Steps.on {α : Type} (steps : Steps α) (e : Engine) : Except EngineError α × Engine := steps.run.run e

/-- Something done as a whole or not at all. -/
def atomic {α : Type} (e : Engine) : Except EngineError (Engine × α) → Except EngineError α × Engine
  | .ok (e', a) => (.ok a, e')
  | .error refusal => (.error refusal, e)

namespace Steps

/-- Goes on only while the engine is open. -/
def ensureOpen : Steps Unit := do
  if (← get).closed then throw .closed

/-- Goes on only while the scheduler takes work. -/
def ensureTaken : Steps Unit := do
  match (← get).scheduler.accept with
  | .ok _ => pure ()
  | .error refusal => throw (.schedule refusal)

/-- A script gets a number. -/
def keepScript (script : Script) : Steps Nat := do
  let id := (← get).world.scripts.size
  modify fun e => e.changeWorld fun w => { w with scripts := w.scripts.push script }
  return id

def register (name : String) (id : Nat) : Steps Unit :=
  modify fun e => { e with registry := e.registry.put name id }

def contextOrNew (ctx : Option Nat) : Steps Nat := do
  let (e, ctx) := (← get).contextOrNew ctx
  set e
  return ctx

def markAsync (ctx : Nat) : Steps Unit :=
  modify fun e => e.changeContext ctx fun c => { c with isAsync := true }

def enqueue (work : Work) : Steps Nat := do
  let (e, job) := (← get).enqueue work
  set e
  return job

/-- Runs a script now; the job that is left is over. -/
def runNow (script ctx : Nat) : Steps Nat := do
  let (e, outcome) := (← get).execute script (some ctx)
  set { e with jobs := e.jobs.push { work := .script script ctx, state := .finished outcome } }
  return e.jobs.size

def schedule (job : TaskJob) (delay : Number) (period : Option Number) (name : String) : Steps Nat := do
  let e ← get
  match e.scheduler.schedule job delay period (some name) with
  | .ok (scheduler, id) =>
    set { e with scheduler := scheduler }
    return id
  | .error refusal => throw (.schedule refusal)

def readFile (file : String) : Steps String := do
  match (← get).readFile file with
  | .ok content => pure content
  | .error refusal => throw refusal

/-! ### Requests -/

def parse (name source : String) (file : Option String) : Steps Nat := do
  ensureOpen
  match build (← get).config name source file with
  | .ok script => keepScript script
  | .error refusal => throw refusal

def load (name source : String) (file : Option String) : Steps Nat := do
  let id ← parse name source file
  register name id
  return id

def loadFile (file : String) : Steps Nat := do
  let content ← readFile file
  load (stem file) (String.ofList (Text.unifyBreaks content.toList)) (some (tidyPath file))

def reload (name : String) : Steps Nat := do
  let e ← get
  match e.get? name with
  | none => throw (.unknownScript name)
  | some id =>
    let script := e.world.script id
    match script.sourceFile.filter e.files.contains with
    | some file => loadFile file
    | none => load name script.source script.sourceFile

/-- The source text is parsed by a worker, which may refuse it as well. -/
def parseOnWorker (name source : String) : Steps Nat := do
  ensureOpen
  ensureTaken
  parse name source none

def submit (script : Nat) (ctx : Option Nat) : Steps Nat := do
  ensureOpen
  let ctx ← contextOrNew ctx
  if (← get).config.asyncExecution then
    markAsync ctx
    ensureTaken
    enqueue (.script script ctx)
  else runNow script ctx

def runLater (script : Nat) (delay : Number) (ctx : Option Nat) : Steps Nat := do
  ensureOpen
  let ctx ← contextOrNew ctx
  markAsync ctx
  schedule (.script script ctx) delay none s!"{((← get).world.script script).name}-later"

def runRepeating (script : Nat) (delay period : Number) (make : StateM Memory Context) : Steps Nat := do
  ensureOpen
  schedule (.fresh script make) delay (some period) s!"{((← get).world.script script).name}-repeating"

/-! ### What steps do -/

section

variable {α β : Type} {e e' : Engine}

theorem on_bind (steps : Steps α) (next : α → Steps β) (e : Engine) :
    (steps >>= next).on e =
      match steps.on e with
      | (.ok a, e') => (next a).on e'
      | (.error refusal, e') => (.error refusal, e') := by
  unfold on
  rw [ExceptT.run_bind, StateT.run_bind]
  generalize steps.run.run e = done
  obtain ⟨answer, e'⟩ := done
  cases answer <;> rfl

@[simp] theorem on_get (e : Engine) : (get : Steps Engine).on e = (.ok e, e) := rfl

@[simp] theorem on_set (e' e : Engine) : (set e' : Steps PUnit).on e = (.ok ⟨⟩, e') := rfl

@[simp] theorem on_modify (change : Engine → Engine) (e : Engine) :
    (modify change : Steps PUnit).on e = (.ok ⟨⟩, change e) := rfl

@[simp] theorem on_pure (a : α) (e : Engine) : (pure a : Steps α).on e = (.ok a, e) := rfl

@[simp] theorem on_throw (refusal : EngineError) (e : Engine) :
    (throw refusal : Steps α).on e = (.error refusal, e) := rfl

theorem on_ensureOpen_of_closed (h : e.closed = true) : ensureOpen.on e = (.error .closed, e) := by
  simp [ensureOpen, on_bind, h]

theorem on_ensureOpen_of_open (h : e.closed = false) : ensureOpen.on e = (.ok (), e) := by
  simp [ensureOpen, on_bind, h]

theorem on_ensureTaken_of_open (h : e.scheduler.closed = false) : ensureTaken.on e = (.ok (), e) := by
  simp [ensureTaken, on_bind, Scheduler.accept, h]

theorem on_schedule (job : TaskJob) (delay : Number) (period : Option Number) (name : String) (e : Engine) :
    (schedule job delay period name).on e = e.atomic (e.scheduled job delay period name) := by
  unfold schedule scheduled
  rw [on_bind, on_get]
  dsimp only
  cases e.scheduler.schedule job delay period (some name) with
  | ok made => rfl
  | error refusal => rfl

/-! ### Requests -/

theorem on_parse (name source : String) (file : Option String) (e : Engine) :
    (parse name source file).on e = e.atomic (e.parse name source file) := by
  unfold parse
  rw [parse_eq, on_bind]
  cases hclosed : e.closed with
  | true => simp [on_ensureOpen_of_closed hclosed, atomic]
  | false =>
    rw [on_ensureOpen_of_open hclosed]
    simp only [on_bind, on_get]
    cases build e.config name source file <;> rfl

theorem on_load (name source : String) (file : Option String) (e : Engine) :
    (load name source file).on e = e.atomic (e.load name source file) := by
  unfold load
  rw [load_eq, on_bind, on_parse]
  cases e.parse name source file <;> rfl

theorem on_loadFile (file : String) (e : Engine) :
    (loadFile file).on e = e.atomic (e.loadFile file) := by
  unfold loadFile Engine.loadFile readFile
  simp only [on_bind, on_get]
  cases e.readFile file with
  | ok content => exact on_load _ _ _ e
  | error refusal => rfl

theorem on_reload (name : String) (e : Engine) : (reload name).on e = e.atomic (e.reload name) := by
  unfold reload Engine.reload
  rw [on_bind, on_get]
  dsimp only
  cases e.get? name with
  | none => rfl
  | some id =>
    dsimp only
    cases (e.world.script id).sourceFile.filter e.files.contains with
    | some file => exact on_loadFile file e
    | none => exact on_load _ _ _ e

/-- What a worker parses is refused by the engine as it is refused on the main thread. -/
theorem on_parseOnWorker (h : e.Gated) (name source : String) :
    (parseOnWorker name source).on e = e.atomic (e.parse name source none) := by
  unfold parseOnWorker
  rw [on_bind]
  cases hclosed : e.closed with
  | true =>
    rw [on_ensureOpen_of_closed hclosed, parse_eq, if_pos hclosed]
    rfl
  | false =>
    rw [on_ensureOpen_of_open hclosed]
    dsimp only
    rw [on_bind, on_ensureTaken_of_open (h.trans hclosed)]
    exact on_parse name source none e

theorem on_submit (h : e.Gated) (script : Nat) (ctx : Option Nat) :
    (submit script ctx).on e = e.atomic (e.submit script ctx) := by
  unfold submit
  rw [on_bind]
  cases hclosed : e.closed with
  | true =>
    rw [on_ensureOpen_of_closed hclosed, submit_of_closed hclosed]
    rfl
  | false =>
    rw [on_ensureOpen_of_open hclosed, submit_of_open hclosed]
    unfold contextOrNew
    simp only [on_bind, on_get, on_set, on_pure]
    have hmade : Continues e (e.contextOrNew ctx).1 := proceeds_contextOrNew e ctx
    have hgate : (e.contextOrNew ctx).1.scheduler.closed = false := hmade.scheduler.trans (h.trans hclosed)
    generalize e.contextOrNew ctx = made at hgate
    cases made.1.config.asyncExecution with
    | true =>
      simp only [if_true, markAsync]
      rw [on_bind, on_modify]
      dsimp only
      rw [on_bind, on_ensureTaken_of_open (by exact hgate)]
      rfl
    | false => rfl

/-- A task without a period is refused only by a closed scheduler: an open one refuses nothing that would have
to be undone, down to any engine before. -/
theorem on_schedule_once (h : e.scheduler.closed = false) (before : Engine) (job : TaskJob) (delay : Number)
    (name : String) :
    (schedule job delay none name).on e = before.atomic (e.scheduled job delay none name) := by
  have hscheduled : ∃ made, e.scheduled job delay none name = .ok made := by
    unfold scheduled Scheduler.schedule
    simp [h]
  obtain ⟨made, hscheduled⟩ := hscheduled
  rw [on_schedule, hscheduled]
  rfl

theorem on_runLater (h : e.Gated) (script : Nat) (delay : Number) (ctx : Option Nat) :
    (runLater script delay ctx).on e = e.atomic (e.runLater script delay ctx) := by
  unfold runLater
  rw [on_bind]
  cases hclosed : e.closed with
  | true =>
    rw [on_ensureOpen_of_closed hclosed, runLater_of_closed hclosed]
    rfl
  | false =>
    rw [on_ensureOpen_of_open hclosed]
    unfold contextOrNew Engine.runLater markAsync
    simp only [on_bind, on_get, on_set, on_pure, on_modify]
    have hmade : Continues e
        ((e.contextOrNew ctx).1.changeContext (e.contextOrNew ctx).2 fun c => { c with isAsync := true }) :=
      (proceeds_contextOrNew e ctx).trans (proceeds_of_eq rfl rfl rfl)
    rw [hclosed]
    exact on_schedule_once (hmade.scheduler.trans (h.trans hclosed)) e _ _ _

theorem on_runRepeating (script : Nat) (delay period : Number) (make : StateM Memory Context) (e : Engine) :
    (runRepeating script delay period make).on e = e.atomic (e.runRepeating script delay period make) := by
  unfold runRepeating
  rw [on_bind]
  cases hclosed : e.closed with
  | true =>
    rw [on_ensureOpen_of_closed hclosed, runRepeating_of_closed hclosed]
    rfl
  | false =>
    rw [on_ensureOpen_of_open hclosed]
    dsimp only
    rw [on_bind, on_get]
    unfold Engine.runRepeating
    rw [hclosed]
    exact on_schedule _ _ _ _ e

end

end Steps

/-! ## Requests that are refused -/

/-- A request that is refused by an error that is raised. -/
inductive Request where
  | parse (name source : String) (file : Option String)
  | load (name source : String) (file : Option String)
  | loadFile (file : String)
  | reload (name : String)
  | parseOnWorker (name source : String)
  | submit (script : Nat) (ctx : Option Nat)
  | runLater (script : Nat) (delay : Number) (ctx : Option Nat)
  | runRepeating (script : Nat) (delay period : Number) (make : StateM Memory Context)

namespace Request

/-- The entry point that is called. -/
def entry : Request → Entry
  | parse name source file => .parse name source file
  | load name source file => .load name source file
  | loadFile file => .loadFile file
  | reload name => .reload name
  | parseOnWorker name source => .parseOnWorker name source
  | submit script ctx => .submit script ctx
  | runLater script delay ctx => .runLater script delay ctx
  | runRepeating script delay period make => .runRepeating script delay period make

def steps : Request → Steps Nat
  | parse name source file => Steps.parse name source file
  | load name source file => Steps.load name source file
  | loadFile file => Steps.loadFile file
  | reload name => Steps.reload name
  | parseOnWorker name source => Steps.parseOnWorker name source
  | submit script ctx => Steps.submit script ctx
  | runLater script delay ctx => Steps.runLater script delay ctx
  | runRepeating script delay period make => Steps.runRepeating script delay period make

/-- What goes on while the answer is waited for: for what a worker parses, the jobs under way come to their
end. -/
def waited (e : Engine) : Request → Engine
  | parseOnWorker .. => if e.closed then e else e.finishAll
  | _ => e

/-- The answer of the entry point, from the answer of the steps and the engine after them. -/
def answered (request : Request) : Except EngineError Nat × Engine → Engine × Answer
  | (.ok id, e) => (request.waited e, .made id)
  | (.error refusal, e) => (request.waited e, .refused refusal)

/-- What the request does as a whole, or why it is refused. -/
def whole (e : Engine) : Request → Except EngineError (Engine × Nat)
  | parse name source file => e.parse name source file
  | load name source file => e.load name source file
  | loadFile file => e.loadFile file
  | reload name => e.reload name
  | parseOnWorker name source => e.parse name source none
  | submit script ctx => e.submit script ctx
  | runLater script delay ctx => e.runLater script delay ctx
  | runRepeating script delay period make => e.runRepeating script delay period make

theorem on_steps {e : Engine} (h : e.Gated) (request : Request) :
    request.steps.on e = e.atomic (request.whole e) := by
  cases request with
  | parse name source file => exact Steps.on_parse name source file e
  | load name source file => exact Steps.on_load name source file e
  | loadFile file => exact Steps.on_loadFile file e
  | reload name => exact Steps.on_reload name e
  | parseOnWorker name source => exact Steps.on_parseOnWorker h name source
  | submit script ctx => exact Steps.on_submit h script ctx
  | runLater script delay ctx => exact Steps.on_runLater h script delay ctx
  | runRepeating script delay period make => exact Steps.on_runRepeating script delay period make e

theorem answered_atomic {request : Request} (hwaited : ∀ e, request.waited e = e) (e : Engine)
    (x : Except EngineError (Engine × Nat)) : e.attempted x = request.answered (e.atomic x) := by
  cases x with
  | ok made => simp [attempted, atomic, answered, hwaited]
  | error refusal => simp [attempted, atomic, answered, hwaited]

/-- An entry point answers as the request is done as a whole or refused. -/
theorem call_entry (e : Engine) (request : Request) :
    e.call request.entry = request.answered (e.atomic (request.whole e)) := by
  cases request with
  | parseOnWorker name source =>
    unfold entry call Engine.parseOnWorker
    cases hclosed : e.closed with
    | true =>
      simp only [if_true, whole, parse_eq, hclosed]
      simp [answered, atomic, waited, hclosed]
    | false =>
      have hparse {e' : Engine} {id : Nat} (h : e.parse name source none = .ok (e', id)) : e'.closed = false :=
        (proceeds_parse h : Continues e e').closed.trans hclosed
      simp only [Bool.false_eq_true, if_false, whole]
      cases hmade : e.parse name source none with
      | ok made => simp [answered, atomic, waited, hparse hmade]
      | error refusal => simp [answered, atomic, waited, hclosed]
  | _ => exact answered_atomic (fun _ => rfl) e _

end Request

/-- A request that is refused, at whatever step, leaves the engine as it was: the registry and the scripts in it,
the variables, the totals, the counters of the scripts, the tasks and all else. -/
theorem refused_requests_change_nothing (config : Config) (host : Host) (queued : Bool) (memory : Memory)
    (past : List Operation) (request : Request) :
    let e := past.foldl after (start config host queued memory)
    e.call request.entry = request.answered (request.steps.on e) ∧
      ∀ refusal e', request.steps.on e = (.error refusal, e') → e' = e := by
  intro e
  have hgated : e.Gated := gated_run (gated_start config host queued memory) past
  rw [request.on_steps hgated]
  refine ⟨request.call_entry e, fun refusal e' h => ?_⟩
  cases hwhole : request.whole e with
  | ok made =>
    rw [hwhole] at h
    cases h
  | error refusal' =>
    rw [hwhole] at h
    cases h
    rfl

end Engine

end EventScript
