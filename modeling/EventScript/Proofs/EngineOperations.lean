import EventScript.Engine.Pool

/-!
All that can be done with an engine.

Engines are used through their entry points, which make scripts and have them run, and through some other
operations. Whatever is done, an engine that was shut down stays so, its scheduler is open exactly while the
engine is, and everything that waits for the main thread has a promise of its own.

Main definitions:
* `Engine.Entry`, `Engine.call`: the entry points and calls of them;
* `Engine.Operation`, `Engine.after`: all that can be done with an engine;
* `Engine.inTurn`: scripts that answer to something, run one after another;
* `Engine.Proceeds`: what is kept while something is done, `Engine.Continues` with any promises settled.

Main facts:
* `Engine.proceeds_doErrand`, `Engine.proceeds_drain`: errands settle their own promises and no others;
* `Engine.continues_after`: what every operation but the shutdown keeps;
* `Engine.closed_run`, `Engine.ticketed_run`, `Engine.gated_run`: what holds after any operations.
-/

namespace EventScript

set_option autoImplicit false

namespace Scheduler

variable {ι : Type}

/-! ## Whether a scheduler is open -/

theorem closed_start (s : Scheduler ι) : s.start.1.closed = s.closed := by
  unfold start
  split
  · rfl
  · dsimp only
    split
    · split <;> rfl
    · rfl

theorem closed_fire (s : Scheduler ι) (id : Nat) : (s.fire id).closed = s.closed := by
  unfold fire
  split
  · rfl
  · dsimp only
    split
    · rfl
    · split
      · rfl
      · split <;> rfl

theorem closed_schedule {s s' : Scheduler ι} {job : ι} {delay : Number} {period : Option Number}
    {name : Option String} {id : Nat} (h : s.schedule job delay period name = .ok (s', id)) :
    s'.closed = s.closed := by
  unfold schedule at h
  split at h
  · cases h
  · split at h
    · cases h
    · cases h
      rfl

theorem closed_cancelAll (s : Scheduler ι) : s.cancelAll.closed = s.closed := by
  unfold cancelAll
  generalize s.tasks.filter (fun task => task.registered) = tasks
  induction tasks generalizing s with
  | nil => rfl
  | cons task tasks ih => exact ih (s.cancel task.id)

theorem closed_shutdown (s : Scheduler ι) : s.shutdown.closed = true := by
  unfold shutdown
  split
  · assumption
  · exact closed_cancelAll _

end Scheduler

namespace Engine

/-! ## Operations -/

/-- A call of one of the functions through which scripts are made or run. -/
inductive Entry where
  | parse (name source : String) (file : Option String)
  | load (name source : String) (file : Option String)
  | loadFile (file : String)
  | reload (name : String)
  | execute (script : Nat) (ctx : Option Nat)
  | executeInline (source : String) (entity : Option Entity)
  | executeSync (source : String) (entity : Option Entity) (otherThread : Bool) (drains : Drains)
  | fireEvent (event : String) (ctx : Option Nat)
  | runCommand (command : String) (ctx : Option Nat)
  | callFunction (script : Nat) (name : String) (values : List Value) (ctx : Option Nat)
  | submit (script : Nat) (ctx : Option Nat)
  | parseOnWorker (name source : String)
  | runLater (script : Nat) (delay : Number) (ctx : Option Nat)
  | runRepeating (script : Nat) (delay period : Number) (make : StateM Memory Context)

/-- What a call answers: the number of what was made, why it was refused, or outcomes. Or it fails with a
fault. -/
inductive Answer where
  | made (id : Nat)
  | refused (error : EngineError)
  | outcomes (outcomes : List Outcome)
  | raised (fault : Fault)

/-- The engine after something that may be refused, and the answer. -/
def attempted (e : Engine) : Except EngineError (Engine × Nat) → Engine × Answer
  | .ok (e', id) => (e', .made id)
  | .error error => (e, .refused error)

/-- A call of an entry point. -/
def call (e : Engine) : Entry → Engine × Answer
  | .parse name source file => e.attempted (e.parse name source file)
  | .load name source file => e.attempted (e.load name source file)
  | .loadFile file => e.attempted (e.loadFile file)
  | .reload name => e.attempted (e.reload name)
  | .execute script ctx => (e.execute script ctx).map id fun outcome => .outcomes [outcome]
  | .executeInline source entity => (e.executeInline source entity).map id fun outcome => .outcomes [outcome]
  | .executeSync source entity otherThread drains =>
    (e.executeSync source entity otherThread drains).map id fun
    | .ok outcome => .outcomes [outcome]
    | .error fault => .raised fault
  | .fireEvent event ctx => (e.fireEvent event ctx).map id .outcomes
  | .runCommand command ctx => (e.runCommand command ctx).map id .outcomes
  | .callFunction script name values ctx =>
    (e.callFunction script name values ctx).map id fun outcome => .outcomes [outcome]
  | .submit script ctx => e.attempted (e.submit script ctx)
  | .parseOnWorker name source => (e.parseOnWorker name source).map id fun
    | .ok id => .made id
    | .error error => .refused error
  | .runLater script delay ctx => e.attempted (e.runLater script delay ctx)
  | .runRepeating script delay period make => e.attempted (e.runRepeating script delay period make)

/-- Something that is done with an engine, or to the world from outside. -/
inductive Operation where
  | call (entry : Entry)
  | unload (name : String)
  | writeFile (file : String) (content : FileContent)
  | deleteFile (file : String)
  | drain (limit : Option Int)
  | await (job : Nat) (draining : Bool)
  | tick (seconds : Float)
  | cancelTask (id : Nat)
  | outside (change : World → World)
  | shutdown

def after (e : Engine) : Operation → Engine
  | .call entry => (e.call entry).1
  | .unload name => (e.unload name).1
  | .writeFile file content => (e.writeFile file content).toOption.getD e
  | .deleteFile file => (e.deleteFile file).toOption.getD e
  | .drain limit => (e.drain limit).1
  | .await job draining => (e.await job draining).1
  | .tick seconds => e.tick seconds
  | .cancelTask id => e.cancelTask id
  | .outside change => e.changeWorld change
  | .shutdown => e.shutdown

/-! ## Events and commands -/

/-- Whether a script is enabled and has a handler. -/
def answers (handles : Statement → Bool) (script : Script) : Bool :=
  script.enabled && !(script.handlers handles).isEmpty

/-- Runs something in each script that answers, one after another. -/
def inTurn (answers : Script → Bool) (run : Engine → Nat → Engine × Outcome) (e : Engine) :
    List Nat → Engine × List Outcome
  | [] => (e, [])
  | id :: rest =>
    if answers (e.world.script id) then
      let (e, outcome) := run e id
      let (e, outcomes) := inTurn answers run e rest
      (e, outcome :: outcomes)
    else inTurn answers run e rest

/-- Runs the handlers of a script for an event. -/
def handleEvent (base : Nat) (event : String) (e : Engine) (id : Nat) : Engine × Outcome :=
  let (e, ctx, outcome) := e.runInClone id base (fun c => c) (.which (Script.handlesEvent event))
  (if (e.world.memory.context ctx).cancelled then
      e.changeContext base fun c => { c with cancelled := true }
    else e, outcome)

/-- Runs the handlers of a script for a command. -/
def handleCommand (base : Nat) (command : String) (e : Engine) (id : Nat) : Engine × Outcome :=
  let (e, _, outcome) := e.runInClone id base (bindWords ((Text.words command.toList).drop 1))
    (.which (Script.handlesCommand command))
  (e, outcome)

theorem fireIn_eq (base : Nat) (event : String) (e : Engine) (ids : List Nat) :
    fireIn base event e ids =
      inTurn (answers (Script.handlesEvent event)) (handleEvent base event) e ids := by
  induction ids generalizing e with
  | nil => rfl
  | cons id rest ih =>
    unfold fireIn inTurn
    simp only [ih]
    rfl

theorem commandIn_eq (base : Nat) (command : String) (e : Engine) (ids : List Nat) :
    commandIn base command e ids =
      inTurn (answers (Script.handlesCommand command)) (handleCommand base command) e ids := by
  induction ids generalizing e with
  | nil => rfl
  | cons id rest ih =>
    unfold commandIn inTurn
    simp only [ih]
    rfl

/-! ## What operations keep -/

/-- The engine and its scheduler are open or not as before, what waits newly for the main thread has got a new
promise, and of the promises before only some were settled. -/
structure Proceeds (settles : Nat → Prop) (e e' : Engine) : Prop where
  closed : e'.closed = e.closed
  scheduler : e'.scheduler.closed = e.scheduler.closed
  size : e.queue.promises.size ≤ e'.queue.promises.size
  waiting : ∀ p ∈ e'.queue.waiting,
    p ∈ e.queue.waiting ∨ e.queue.promises.size ≤ p.1 ∧ p.1 < e'.queue.promises.size
  promises : ∀ n < e.queue.promises.size, ¬ settles n → e'.queue.promises.get n = e.queue.promises.get n

section

variable {settles : Nat → Prop} {e e' e'' : Engine}

theorem proceeds_of_eq (hclosed : e'.closed = e.closed) (hscheduler : e'.scheduler.closed = e.scheduler.closed)
    (hqueue : e'.queue = e.queue) : Proceeds settles e e' := by
  refine ⟨hclosed, hscheduler, Nat.le_of_eq (by rw [hqueue]), ?_, ?_⟩
  · rw [hqueue]
    exact fun p hp => .inl hp
  · rw [hqueue]
    exact fun n _ _ => rfl

theorem Proceeds.refl (e : Engine) : Proceeds settles e e := proceeds_of_eq rfl rfl rfl

theorem Proceeds.trans (h : Proceeds settles e e') (h' : Proceeds settles e' e'') :
    Proceeds settles e e'' := by
  refine ⟨h'.closed.trans h.closed, h'.scheduler.trans h.scheduler, Nat.le_trans h.size h'.size,
    fun p hp => ?_, fun n hn hsettles => ?_⟩
  · rcases h'.waiting p hp with hold | ⟨hge, hlt⟩
    · rcases h.waiting p hold with holder | ⟨hge, hlt⟩
      · exact .inl holder
      · exact .inr ⟨hge, Nat.lt_of_lt_of_le hlt h'.size⟩
    · exact .inr ⟨Nat.le_trans h.size hge, hlt⟩
  · rw [h'.promises n (Nat.lt_of_lt_of_le hn h.size) hsettles, h.promises n hn hsettles]

/-- What goes before does not matter if it leaves the queue alone. -/
theorem Proceeds.of_start (h : Proceeds settles e' e'') (hclosed : e'.closed = e.closed)
    (hscheduler : e'.scheduler.closed = e.scheduler.closed) (hqueue : e'.queue = e.queue) :
    Proceeds settles e e'' :=
  (proceeds_of_eq hclosed hscheduler hqueue).trans h

theorem proceeds_submit (errand : Errand) (hclosed : e'.closed = e.closed)
    (hscheduler : e'.scheduler.closed = e.scheduler.closed) (hqueue : e'.queue = e.queue.submit errand) :
    Proceeds settles e e' := by
  refine ⟨hclosed, hscheduler, ?_, ?_, ?_⟩
  · rw [hqueue]
    simp [MainQueue.submit]
  · rw [hqueue]
    intro p hp
    rcases List.mem_append.1 hp with hold | hnew
    · exact .inl hold
    · rw [List.mem_singleton.1 hnew]
      exact .inr ⟨Nat.le_refl _, by simp [MainQueue.submit]⟩
  · rw [hqueue]
    intro n hn _
    exact Table.get_push_of_lt _ _ hn

theorem proceeds_set {ticket : Nat} (h : settles ticket) {promise : Promise Unit Outcome}
    (hclosed : e'.closed = e.closed) (hscheduler : e'.scheduler.closed = e.scheduler.closed)
    (hqueue : e'.queue = { e.queue with promises := e.queue.promises.set ticket promise }) :
    Proceeds settles e e' := by
  refine ⟨hclosed, hscheduler, ?_, ?_, ?_⟩
  · rw [hqueue]
    simp
  · rw [hqueue]
    exact fun p hp => .inl hp
  · rw [hqueue]
    intro n _ hn
    refine Table.get_set_of_ne _ _ ?_
    rintro rfl
    exact hn h

theorem proceeds_foldl {σ β : Type} (view : σ → Engine) {f : σ → β → σ} {bs : List β}
    (h : ∀ b ∈ bs, ∀ s, Proceeds settles (view s) (view (f s b))) (s : σ) :
    Proceeds settles (view s) (view (bs.foldl f s)) := by
  induction bs generalizing s with
  | nil => exact .refl _
  | cons b bs ih =>
    have hrest := ih (fun b' hb' => h b' (List.mem_cons_of_mem _ hb')) (f s b)
    exact (h b List.mem_cons_self s).trans hrest

theorem proceeds_attempted {x : Except EngineError (Engine × Nat)}
    (h : ∀ e' id, x = .ok (e', id) → Proceeds settles e e') : Proceeds settles e (e.attempted x).1 := by
  cases x with
  | error error => exact .refl e
  | ok made => exact h made.1 made.2 rfl

/-! ### Scripts in and out -/

theorem parse_eq (e : Engine) (name source : String) (file : Option String) :
    e.parse name source file =
      if e.closed then .error .closed
      else (build e.config name source file).map fun script =>
        (e.changeWorld fun w => { w with scripts := w.scripts.push script }, e.world.scripts.size) := by
  unfold parse
  split
  · rfl
  · cases build e.config name source file <;> rfl

theorem load_eq (e : Engine) (name source : String) (file : Option String) :
    e.load name source file = (e.parse name source file).map fun (e', id) =>
      ({ e' with registry := e'.registry.put name id }, id) := by
  unfold load
  cases e.parse name source file <;> rfl

theorem proceeds_parse {name source : String} {file : Option String} {id : Nat}
    (h : e.parse name source file = .ok (e', id)) : Proceeds settles e e' := by
  rw [parse_eq] at h
  split at h
  · cases h
  · cases hbuild : build e.config name source file with
    | error error =>
      rw [hbuild] at h
      cases h
    | ok script =>
      rw [hbuild] at h
      cases h
      exact proceeds_of_eq rfl rfl rfl

theorem proceeds_load {name source : String} {file : Option String} {id : Nat}
    (h : e.load name source file = .ok (e', id)) : Proceeds settles e e' := by
  rw [load_eq] at h
  cases hparse : e.parse name source file with
  | error error =>
    rw [hparse] at h
    cases h
  | ok made =>
    rw [hparse] at h
    cases h
    exact (proceeds_parse hparse).trans (proceeds_of_eq rfl rfl rfl)

theorem proceeds_loadFile {file : String} {id : Nat} (h : e.loadFile file = .ok (e', id)) :
    Proceeds settles e e' := by
  unfold loadFile at h
  cases hread : e.readFile file with
  | error error =>
    rw [hread] at h
    cases h
  | ok content =>
    rw [hread] at h
    exact proceeds_load h

theorem proceeds_reload {name : String} {id : Nat} (h : e.reload name = .ok (e', id)) :
    Proceeds settles e e' := by
  unfold reload at h
  split at h
  · cases h
  · dsimp only at h
    split at h
    · exact proceeds_loadFile h
    · exact proceeds_load h

/-! ### Runs on the main thread -/

theorem proceeds_runNow (e : Engine) (run : Run Outcome) : Proceeds settles e (e.runNow run).1 :=
  proceeds_of_eq rfl rfl rfl

theorem proceeds_contextOrNew (e : Engine) (ctx : Option Nat) :
    Proceeds settles e (e.contextOrNew ctx).1 := by
  cases ctx <;> exact proceeds_of_eq rfl rfl rfl

theorem proceeds_execute (e : Engine) (script : Nat) (ctx : Option Nat) :
    Proceeds settles e (e.execute script ctx).1 := by
  unfold execute
  split
  · exact .refl e
  · exact (proceeds_contextOrNew e ctx).trans (proceeds_runNow _ _)

theorem proceeds_executeInline (e : Engine) (source : String) (entity : Option Entity) :
    Proceeds settles e (e.executeInline source entity).1 := by
  unfold executeInline
  split
  · rename_i e' script hparse
    have hnew : Proceeds settles e (e'.newContext { entity := entity }).1 :=
      (proceeds_parse hparse).trans (proceeds_of_eq rfl rfl rfl)
    exact hnew.trans (proceeds_execute _ _ _)
  · exact .refl e
  · exact .refl e

theorem proceeds_callFunction (e : Engine) (script : Nat) (name : String) (values : List Value)
    (ctx : Option Nat) : Proceeds settles e (e.callFunction script name values ctx).1 := by
  unfold callFunction
  split
  · exact .refl e
  · exact (proceeds_contextOrNew e ctx).trans (proceeds_runNow _ _)

/-! ### Events and commands -/

theorem proceeds_inTurn {answers : Script → Bool} {run : Engine → Nat → Engine × Outcome}
    (h : ∀ e id, Proceeds settles e (run e id).1) (e : Engine) (ids : List Nat) :
    Proceeds settles e (inTurn answers run e ids).1 := by
  induction ids generalizing e with
  | nil => exact .refl e
  | cons id rest ih =>
    unfold inTurn
    split
    · exact (h e id).trans (ih _)
    · exact ih e

theorem proceeds_runInClone (e : Engine) (script base : Nat) (prepare : Context → Context)
    (selection : Selection) : Proceeds settles e (e.runInClone script base prepare selection).1 :=
  proceeds_of_eq rfl rfl rfl

theorem proceeds_handleEvent (base : Nat) (event : String) (e : Engine) (id : Nat) :
    Proceeds settles e (handleEvent base event e id).1 := by
  have hrun : Proceeds settles e
      (e.runInClone id base (fun c => c) (.which (Script.handlesEvent event))).1 :=
    proceeds_runInClone e id base _ _
  unfold handleEvent
  generalize e.runInClone id base (fun c => c) (.which (Script.handlesEvent event)) = ran at hrun
  dsimp only
  split
  · exact hrun.trans (proceeds_of_eq rfl rfl rfl)
  · exact hrun

theorem proceeds_fireEvent (e : Engine) (event : String) (ctx : Option Nat) :
    Proceeds settles e (e.fireEvent event ctx).1 := by
  unfold fireEvent
  dsimp only
  rw [fireIn_eq]
  refine (proceeds_contextOrNew e ctx).trans ?_
  exact (proceeds_inTurn (proceeds_handleEvent _ event) _ _).of_start rfl rfl rfl

theorem proceeds_runCommand (e : Engine) (command : String) (ctx : Option Nat) :
    Proceeds settles e (e.runCommand command ctx).1 := by
  unfold runCommand
  dsimp only
  rw [commandIn_eq]
  refine (proceeds_contextOrNew e ctx).trans ?_
  exact proceeds_inTurn (fun e' id => proceeds_runInClone e' id _ _ _) _ _

/-! ### Workers -/

theorem proceeds_settle (e : Engine) (job : Nat) (process : Proc World (Except Fault Outcome)) :
    Proceeds settles e (e.settle job process) := by
  induction process generalizing e with
  | done world result => exact proceeds_of_eq rfl rfl rfl
  | ask world call resume ih =>
    unfold settle
    split
    · exact proceeds_submit (.call job) rfl rfl rfl
    · refine Proceeds.trans ?_ (ih _ _ _)
      exact proceeds_submit (.unwaited call) rfl rfl rfl

theorem proceeds_runOnWorker (e : Engine) (job : Nat) (run : Run Outcome) :
    Proceeds settles e (e.runOnWorker job run) := by
  unfold runOnWorker
  split
  · exact proceeds_settle e job _
  · exact proceeds_of_eq rfl rfl rfl

theorem proceeds_runScript (e : Engine) (job script ctx : Nat) :
    Proceeds settles e (e.runScript job script ctx) := by
  unfold runScript
  split
  · exact proceeds_of_eq rfl rfl rfl
  · exact proceeds_runOnWorker e job _

theorem proceeds_begin (e : Engine) (job : Nat) : Proceeds settles e (e.begin job) := by
  unfold begin
  split
  · exact proceeds_runScript e job _ _
  · dsimp only
    have hstart := e.scheduler.closed_start
    split
    · exact proceeds_of_eq rfl hstart rfl
    · exact proceeds_of_eq rfl hstart rfl
    · exact (proceeds_runScript _ job _ _).of_start rfl hstart rfl
    · exact (proceeds_runScript _ job _ _).of_start rfl hstart rfl

theorem proceeds_fill (e : Engine) : Proceeds settles e e.fill := by
  refine proceeds_foldl id (fun job _ e => ?_) e
  dsimp only [id]
  split
  · exact proceeds_begin e job
  · exact .refl e

theorem proceeds_enqueue (e : Engine) (work : Work) : Proceeds settles e (e.enqueue work).1 :=
  (proceeds_fill { e with jobs := e.jobs.push { work := work } }).of_start rfl rfl rfl

/-! ### The main thread -/

theorem proceeds_serveJob (e : Engine) (job : Nat) : Proceeds settles e (e.serveJob job) := by
  unfold serveJob
  split
  · refine Proceeds.trans ?_ (proceeds_fill _)
    exact (proceeds_settle _ job _).of_start rfl rfl rfl
  · exact .refl e

theorem proceeds_doErrand (e : Engine) {ticket : Nat} (h : settles ticket) (errand : Errand) :
    Proceeds settles e (e.doErrand ticket errand) := by
  unfold doErrand
  split
  · cases errand with
    | call job =>
      refine Proceeds.trans ?_ (proceeds_serveJob { e with queue := e.queue.settle ticket (.ok .done) } job)
      exact proceeds_set h rfl rfl rfl
    | unwaited call => exact proceeds_set h rfl rfl rfl
    | inline source entity => exact (proceeds_executeInline e source entity).trans (proceeds_set h rfl rfl rfl)
  · exact .refl e

theorem proceeds_take (e : Engine) (limit : Option Int) :
    Proceeds settles e { e with queue := (e.queue.take limit).2 } where
  closed := rfl
  scheduler := rfl
  size := Nat.le_refl _
  waiting _ hp := .inl (List.mem_of_mem_drop hp)
  promises _ _ _ := rfl

theorem proceeds_drain (e : Engine) (limit : Option Int) (h : ∀ p ∈ e.queue.waiting, settles p.1) :
    Proceeds settles e (e.drain limit).1 := by
  refine (proceeds_take e limit).trans (proceeds_foldl id (fun p hp e' => ?_) _)
  exact proceeds_doErrand e' (h p (List.mem_of_mem_take hp)) p.2

end

/-! ### All that can be done -/

section

/-- An engine that goes on while any promises may be settled. -/
abbrev Continues : Engine → Engine → Prop := Proceeds fun _ => True

theorem continues_drainFor (e : Engine) (job : Nat) (call : HostCall) :
    Continues e (e.drainFor job call).1 := by
  unfold drainFor
  refine (proceeds_take e none).trans (proceeds_foldl Prod.fst (fun p _ s => ?_) (_, _))
  obtain ⟨ticket, errand⟩ := p
  have hother : Continues s.1 (s.1.doErrand ticket errand) := proceeds_doErrand s.1 trivial errand
  cases errand with
  | call other =>
    dsimp only
    split
    · exact proceeds_set trivial rfl rfl rfl
    · exact hother
  | unwaited call => exact hother
  | inline source entity => exact hother

theorem continues_carry (job : Nat) (process : Proc World (Except Fault Outcome)) (e : Engine) :
    Continues e (carry job process e) := by
  induction process generalizing e with
  | done world result => exact (proceeds_settle e job _).trans (proceeds_fill _)
  | ask world call resume ih =>
    unfold carry
    exact ((continues_drainFor e job call).trans (proceeds_settle _ job _)).trans (ih _ _ _)

theorem continues_expire (job : Nat) (process : Proc World (Except Fault Outcome)) (e : Engine) :
    Continues e (expire job process e) := by
  induction process generalizing e with
  | done world result => exact (proceeds_settle e job _).trans (proceeds_fill _)
  | ask world call resume ih =>
    unfold expire
    refine Proceeds.trans (Proceeds.trans ?_ (proceeds_settle _ job _)) (ih _ _ _)
    split
    · exact proceeds_set trivial rfl rfl rfl
    · exact .refl e

theorem continues_finishJob (e : Engine) (draining : Bool) (job : Nat) :
    Continues e (e.finishJob draining job) := by
  unfold finishJob
  split
  · split
    · exact continues_carry job _ e
    · exact continues_expire job _ e
  · exact .refl e

theorem continues_finishAll (e : Engine) : Continues e e.finishAll :=
  proceeds_foldl id (fun job _ e => continues_finishJob e true job) e

theorem continues_await (e : Engine) (job : Nat) (draining : Bool) :
    Continues e (e.await job draining).1 := by
  unfold await
  dsimp only
  split
  · exact continues_finishAll e
  · refine proceeds_foldl id (fun earlier _ e => ?_) e
    dsimp only [id]
    split
    · exact .refl e
    · exact continues_finishJob e false earlier

theorem submit_of_closed {e : Engine} (h : e.closed = true) (script : Nat) (ctx : Option Nat) :
    e.submit script ctx = .error .closed := by
  unfold submit
  rw [h]
  rfl

theorem submit_of_open {e : Engine} (h : e.closed = false) (script : Nat) (ctx : Option Nat) :
    e.submit script ctx =
      let (e, ctx) := e.contextOrNew ctx
      if e.config.asyncExecution then
        .ok ((e.changeContext ctx fun c => { c with isAsync := true }).enqueue (.script script ctx))
      else
        let (e, outcome) := e.execute script (some ctx)
        .ok ({ e with jobs := e.jobs.push { work := .script script ctx, state := .finished outcome } },
          e.jobs.size) := by
  unfold submit
  rw [h]
  rfl

theorem continues_submit {e e' : Engine} {script : Nat} {ctx : Option Nat} {id : Nat}
    (h : e.submit script ctx = .ok (e', id)) : Continues e e' := by
  cases hclosed : e.closed with
  | true =>
    rw [submit_of_closed hclosed] at h
    cases h
  | false =>
    rw [submit_of_open hclosed] at h
    refine (proceeds_contextOrNew e ctx).trans ?_
    dsimp only at h
    split at h
    · cases h
      exact (proceeds_enqueue _ _).of_start rfl rfl rfl
    · cases h
      exact (proceeds_execute _ _ _).trans (proceeds_of_eq rfl rfl rfl)

theorem continues_parseOnWorker (e : Engine) (name source : String) :
    Continues e (e.parseOnWorker name source).1 := by
  unfold parseOnWorker
  split
  · exact .refl e
  · split
    · rename_i e' script hparse
      exact (proceeds_parse hparse).trans (continues_finishAll e')
    · exact continues_finishAll e

theorem continues_handIn (e : Engine) (source : String) (entity : Option Entity) (drains : Drains) :
    Continues e (e.handIn source entity drains) := by
  have hsubmitted : Continues e { e with queue := e.queue.submit (.inline source entity) } :=
    proceeds_submit (.inline source entity) rfl rfl rfl
  unfold handIn
  dsimp only
  split
  · exact hsubmitted
  · exact hsubmitted.trans (proceeds_drain _ none fun _ _ => trivial)

theorem continues_executeSync (e : Engine) (source : String) (entity : Option Entity) (otherThread : Bool)
    (drains : Drains) : Continues e (e.executeSync source entity otherThread drains).1 := by
  have hafter := continues_handIn e source entity drains
  unfold executeSync
  generalize e.handIn source entity drains = after at hafter
  split
  · dsimp only
    split
    · exact hafter
    · exact hafter
    · exact hafter.trans (proceeds_set trivial rfl rfl rfl)
  · exact proceeds_executeInline e source entity

theorem continues_scheduled {e e' : Engine} {job : TaskJob} {delay : Number} {period : Option Number}
    {name : String} {id : Nat} (h : e.scheduled job delay period name = .ok (e', id)) : Continues e e' := by
  unfold scheduled at h
  split at h
  · rename_i hschedule
    cases h
    exact proceeds_of_eq rfl (Scheduler.closed_schedule hschedule) rfl
  · cases h

theorem runLater_of_closed {e : Engine} (h : e.closed = true) (script : Nat) (delay : Number)
    (ctx : Option Nat) : e.runLater script delay ctx = .error .closed := by
  unfold runLater
  rw [h]
  rfl

theorem continues_runLater {e e' : Engine} {script : Nat} {delay : Number} {ctx : Option Nat} {id : Nat}
    (h : e.runLater script delay ctx = .ok (e', id)) : Continues e e' := by
  cases hclosed : e.closed with
  | true =>
    rw [runLater_of_closed hclosed] at h
    cases h
  | false =>
    unfold runLater at h
    rw [hclosed] at h
    refine (proceeds_contextOrNew e ctx).trans ?_
    exact Proceeds.of_start (continues_scheduled h) rfl rfl rfl

theorem runRepeating_of_closed {e : Engine} (h : e.closed = true) (script : Nat) (delay period : Number)
    (make : StateM Memory Context) : e.runRepeating script delay period make = .error .closed := by
  unfold runRepeating
  rw [h]
  rfl

theorem continues_runRepeating {e e' : Engine} {script : Nat} {delay period : Number}
    {make : StateM Memory Context} {id : Nat} (h : e.runRepeating script delay period make = .ok (e', id)) :
    Continues e e' := by
  cases hclosed : e.closed with
  | true =>
    rw [runRepeating_of_closed hclosed] at h
    cases h
  | false =>
    unfold runRepeating at h
    rw [hclosed] at h
    exact continues_scheduled h

/-- A task is run with the scheduler that the timers have come to. -/
theorem continues_runTask {scheduler : Scheduler TaskJob} {e : Engine}
    (h : scheduler.closed = e.scheduler.closed) : Continues e (runTask scheduler e).2 := by
  have henqueued : Continues e ({ e with scheduler := scheduler }.enqueue .task).1 :=
    (proceeds_enqueue _ _).of_start rfl h rfl
  exact henqueued.trans (continues_await _ _ true)

theorem continues_fireUntil (target : Float) (more : Nat) {scheduler : Scheduler TaskJob} {e : Engine}
    (h : scheduler.closed = e.scheduler.closed) :
    Continues e (scheduler.fireUntil runTask target more e).2 ∧
      (scheduler.fireUntil runTask target more e).1.closed = e.scheduler.closed := by
  induction more generalizing scheduler e with
  | zero => exact ⟨.refl e, h⟩
  | succ more ih =>
    unfold Scheduler.fireUntil
    split
    · exact ⟨.refl e, h⟩
    · rename_i id time _
      have hrun := continues_runTask ((Scheduler.closed_fire { scheduler with now := time } id).trans h)
      obtain ⟨hrest, hclosed⟩ := ih (e := (runTask ({ scheduler with now := time }.fire id) e).2) rfl
      exact ⟨hrun.trans hrest, hclosed.trans hrun.scheduler⟩

theorem continues_tick (e : Engine) (seconds : Float) : Continues e (e.tick seconds) := by
  obtain ⟨hfired, hclosed⟩ := continues_fireUntil (e.scheduler.now + seconds)
    (e.scheduler.firingBound (e.scheduler.now + seconds)) (rfl : e.scheduler.closed = e.scheduler.closed)
  exact hfired.trans (proceeds_of_eq rfl (hclosed.trans hfired.scheduler.symm) rfl)

theorem continues_call (e : Engine) (entry : Entry) : Continues e (e.call entry).1 := by
  cases entry with
  | parse name source file => exact proceeds_attempted fun _ _ => proceeds_parse
  | load name source file => exact proceeds_attempted fun _ _ => proceeds_load
  | loadFile file => exact proceeds_attempted fun _ _ => proceeds_loadFile
  | reload name => exact proceeds_attempted fun _ _ => proceeds_reload
  | execute script ctx => exact proceeds_execute e script ctx
  | executeInline source entity => exact proceeds_executeInline e source entity
  | executeSync source entity otherThread drains => exact continues_executeSync e source entity otherThread drains
  | fireEvent event ctx => exact proceeds_fireEvent e event ctx
  | runCommand command ctx => exact proceeds_runCommand e command ctx
  | callFunction script name values ctx => exact proceeds_callFunction e script name values ctx
  | submit script ctx => exact proceeds_attempted fun _ _ => continues_submit
  | parseOnWorker name source => exact continues_parseOnWorker e name source
  | runLater script delay ctx => exact proceeds_attempted fun _ _ => continues_runLater
  | runRepeating script delay period make => exact proceeds_attempted fun _ _ => continues_runRepeating

theorem continues_writeFile (e : Engine) (file : String) (content : FileContent) :
    Continues e ((e.writeFile file content).toOption.getD e) := by
  unfold writeFile
  cases placeOf file <;> exact proceeds_of_eq rfl rfl rfl

theorem continues_deleteFile (e : Engine) (file : String) :
    Continues e ((e.deleteFile file).toOption.getD e) := by
  unfold deleteFile
  cases e.contentOf file <;> exact proceeds_of_eq rfl rfl rfl

theorem continues_after (e : Engine) {op : Operation} (h : op ≠ .shutdown) : Continues e (e.after op) := by
  cases op with
  | call entry => exact continues_call e entry
  | unload name => exact proceeds_of_eq rfl rfl rfl
  | writeFile file content => exact continues_writeFile e file content
  | deleteFile file => exact continues_deleteFile e file
  | drain limit => exact proceeds_drain e limit fun _ _ => trivial
  | await job draining => exact continues_await e job draining
  | tick seconds => exact continues_tick e seconds
  | cancelTask id => exact proceeds_of_eq rfl rfl rfl
  | outside change => exact proceeds_of_eq rfl rfl rfl
  | shutdown => exact absurd rfl h

theorem continues_shutdown (e : Engine) :
    Continues
      { e with closed := true, scheduler := if e.closed then e.scheduler else e.scheduler.shutdown }
      e.shutdown := by
  unfold shutdown
  split
  · rename_i hclosed
    exact proceeds_of_eq hclosed rfl rfl
  · dsimp only
    refine Proceeds.trans ?_ (proceeds_foldl id (fun job _ e => ?_) _)
    · split
      · exact proceeds_foldl id (fun job _ e => continues_finishJob e false job) _
      · exact .refl _
    · dsimp only [id]
      split
      · exact proceeds_of_eq rfl rfl rfl
      · exact .refl e

/-! ## Engines that were shut down -/

/-- Everything that waits for the main thread has a promise. -/
def Ticketed (e : Engine) : Prop := ∀ p ∈ e.queue.waiting, p.1 < e.queue.promises.size

theorem Proceeds.ticketed {settles : Nat → Prop} {e e' : Engine} (h : Proceeds settles e e')
    (he : e.Ticketed) : e'.Ticketed := by
  intro p hp
  rcases h.waiting p hp with hold | ⟨-, hlt⟩
  · exact Nat.lt_of_lt_of_le (he p hold) h.size
  · exact hlt

theorem ticketed_start (config : Config) (host : Host) (queued : Bool) (memory : Memory) :
    (start config host queued memory).Ticketed := by
  have hqueue : (start config host queued memory).queue = {} := by
    unfold start
    dsimp only
    split
    · split <;> rfl
    · rfl
  intro p hp
  rw [hqueue] at hp
  cases hp

theorem ticketed_after {e : Engine} (h : e.Ticketed) (op : Operation) : (e.after op).Ticketed := by
  by_cases hop : op = .shutdown
  · subst hop
    exact (continues_shutdown e).ticketed h
  · exact (continues_after e hop).ticketed h

theorem ticketed_run {e : Engine} (h : e.Ticketed) (ops : List Operation) : (ops.foldl after e).Ticketed := by
  induction ops generalizing e with
  | nil => exact h
  | cons op ops ih => exact ih (ticketed_after h op)

theorem closed_after {e : Engine} (h : e.closed = true) (op : Operation) : (e.after op).closed = true := by
  by_cases hop : op = .shutdown
  · subst hop
    exact (continues_shutdown e).closed
  · rw [(continues_after e hop).closed, h]

theorem closed_run {e : Engine} (h : e.closed = true) (ops : List Operation) :
    (ops.foldl after e).closed = true := by
  induction ops generalizing e with
  | nil => exact h
  | cons op ops ih => exact ih (closed_after h op)

/-! ## The scheduler of an engine -/

/-- The scheduler of an engine is open exactly while the engine is. -/
def Gated (e : Engine) : Prop := e.scheduler.closed = e.closed

theorem gated_start (config : Config) (host : Host) (queued : Bool) (memory : Memory) :
    (start config host queued memory).Gated := by
  unfold start
  dsimp only
  split
  · split
    · rename_i hschedule
      exact Scheduler.closed_schedule hschedule
    · rfl
  · rfl

theorem gated_after {e : Engine} (h : e.Gated) (op : Operation) : (e.after op).Gated := by
  by_cases hop : op = .shutdown
  · subst hop
    have hscheduler := (continues_shutdown e).scheduler
    have hclosed := (continues_shutdown e).closed
    refine hscheduler.trans (Eq.trans ?_ hclosed.symm)
    dsimp only
    split
    · exact h.trans (by assumption)
    · exact Scheduler.closed_shutdown _
  · have hcontinues := continues_after e hop
    exact hcontinues.scheduler.trans (h.trans hcontinues.closed.symm)

theorem gated_run {e : Engine} (h : e.Gated) (ops : List Operation) : (ops.foldl after e).Gated := by
  induction ops generalizing e with
  | nil => exact h
  | cons op ops ih => exact ih (gated_after h op)

end

end Engine

end EventScript
