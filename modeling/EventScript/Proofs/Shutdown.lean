import EventScript.Proofs.EngineOperations
import EventScript.Proofs.WholeRuns

/-!
After the shutdown.

After the shutdown a call of an entry point is refused, or it ends with an error, and it does nothing: no
statement is started and no host is called, and the variables, the registry, the scripts and the totals stay
as they were. Events and commands make an exception: no matter that the engine was shut down, every enabled
script with a handler for them is run. Some calls do nothing as well, but falter before they come to the shutdown,
over a file without a text or because their thread cannot wait.

A thread that hands in a source text for the main thread waits for its turn. What the main thread does before
that for jobs that were under way is not done by the call.

Main definitions:
* `Engine.Rests`: nothing was run and nothing was changed that a script could notice;
* `Engine.Answer.Refuses`: answers that refuse a call;
* `Engine.Falters`: calls that fail otherwise, and how they are answered;
* `Engine.answering`: the scripts that answer to an event or a command.

Main facts:
* `Engine.Falters.answer`: calls that falter, whatever the engine is like;
* `Engine.refuses_of_closed`: calls that are not for events or commands;
* `Engine.inTurn_spec`: every script that answers is run and counted once;
* `Engine.rests_after_shutdown_iff`: calls after the shutdown.
-/

namespace EventScript

set_option autoImplicit false

/-- What is wrong is a path that no file can have, or what is in a file. -/
def EngineError.isMalformed : EngineError → Bool
  | .nullInPath | .notText _ => true
  | _ => false

namespace Engine

/-! ## Calls after the shutdown -/

/-- Nothing was run: no statement was started, no host was called, and the variables, the registry, the
scripts and the totals are as before. -/
structure Rests (e e' : Engine) : Prop where
  journal : e'.world.journal = e.world.journal
  store : e'.world.memory.store = e.world.memory.store
  lists : e'.world.memory.lists = e.world.memory.lists
  scripts : e'.world.scripts = e.world.scripts
  totals : e'.world.totals = e.world.totals
  registry : e'.registry = e.registry

/-- The answer is an error that the entry point may raise after the shutdown, or it has only errors for
outcomes. -/
def Answer.Refuses (answer : Answer) (entry : Entry) : Prop :=
  match entry, answer with
  | .loadFile file, .refused error => error = .closed ∨ error = .noFile file ∨ error = .isFolder file
  | .reload name, .refused error =>
    error = .closed ∨ error = .unknownScript name ∨ ∃ file, error = .noFile file ∨ error = .isFolder file
  | .execute .., .outcomes all | .executeInline .., .outcomes all
  | .executeSync .., .outcomes all | .callFunction .., .outcomes all =>
    ∃ outcome, all = [outcome] ∧ outcome.isError = true
  | .fireEvent .., .outcomes all | .runCommand .., .outcomes all => ∀ outcome ∈ all, outcome.isError = true
  | .parse .., .refused error | .load .., .refused error | .submit .., .refused error
  | .parseOnWorker .., .refused error | .runLater .., .refused error | .runRepeating .., .refused error =>
    error = .closed
  | _, _ => False

/-- Calls that fail, be the engine shut down or not, and how they are answered: the file to be loaded has no text
that could be read, or the thread that calls cannot wait for the main thread. -/
inductive Falters (e : Engine) : Entry → Answer → Prop
  | loadFile {file : String} {error : EngineError} (hread : e.readFile file = .error error)
      (herror : error.isMalformed = true) : Falters e (.loadFile file) (.refused error)
  | reload {name file : String} {id : Nat} {error : EngineError} (hname : e.get? name = some id)
      (hfile : (e.world.script id).sourceFile.filter e.files.contains = some file)
      (hread : e.readFile file = .error error) (herror : error.isMalformed = true) :
      Falters e (.reload name) (.refused error)
  | executeSync (source : String) (entity : Option Entity) {drains : Drains} {fault : Fault}
      (hqueued : e.queued = true) (hfault : e.waitFault? drains = some fault) :
      Falters e (.executeSync source entity true drains) (.raised fault)

/-- Whether a call is for an event or a command. -/
def Entry.dispatches : Entry → Bool
  | .fireEvent .. | .runCommand .. => true
  | _ => false

/-- The enabled scripts of the registry with a handler for the event or the command of a call. -/
def answering (e : Engine) : Entry → List Nat
  | .fireEvent event _ =>
    e.registry.values.filter fun id => answers (Script.handlesEvent event) (e.world.script id)
  | .runCommand command _ =>
    e.registry.values.filter fun id => answers (Script.handlesCommand command) (e.world.script id)
  | _ => []

/-- The engine with one more promise. -/
def promised (e : Engine) : Engine :=
  { e with queue := { e.queue with promises := e.queue.promises.push .pending } }

/-- The engine when a call gets its turn. A source text that another thread hands in has to wait until the
main thread has done what waited before. -/
def meanwhile (e : Engine) : Entry → Engine
  | .executeSync _ _ otherThread drains =>
    if e.queued && otherThread then if drains = .never then e else (e.promised.drain none).1 else e
  | _ => e

section

variable {e : Engine}

theorem Rests.refl (e : Engine) : Rests e e := ⟨rfl, rfl, rfl, rfl, rfl, rfl⟩

theorem parse_of_closed (h : e.closed = true) (name source : String) (file : Option String) :
    e.parse name source file = .error .closed := by
  rw [parse_eq, if_pos h]

theorem load_of_closed (h : e.closed = true) (name source : String) (file : Option String) :
    e.load name source file = .error .closed := by
  rw [load_eq, parse_of_closed h]
  rfl

theorem loadFile_of_error {file : String} {error : EngineError} (h : e.readFile file = .error error) :
    e.loadFile file = .error error := by
  unfold loadFile
  rw [h]
  rfl

theorem reload_of_file {name file : String} {id : Nat} (hname : e.get? name = some id)
    (hfile : (e.world.script id).sourceFile.filter e.files.contains = some file) :
    e.reload name = e.loadFile file := by
  unfold reload
  rw [hname]
  dsimp only
  rw [hfile]

theorem executeSync_of_fault (hqueued : e.queued = true) {drains : Drains} {fault : Fault}
    (h : e.waitFault? drains = some fault) (source : String) (entity : Option Entity) :
    (e.executeSync source entity true drains).2 = .error fault := by
  unfold executeSync
  rw [hqueued]
  simp only [h, Bool.and_self, if_true]

/-- A call that falters is answered so, whatever else the engine is like. -/
theorem Falters.answer {entry : Entry} {answer : Answer} (h : e.Falters entry answer) :
    (e.call entry).2 = answer := by
  cases h with
  | loadFile hread herror => rw [call, loadFile_of_error hread, attempted]
  | reload hname hfile hread herror =>
    rw [call, reload_of_file hname hfile, loadFile_of_error hread, attempted]
  | executeSync source entity hqueued hfault =>
    rw [call, Prod.map_snd, executeSync_of_fault hqueued hfault]

theorem Falters.not_refuses {entry : Entry} {answer : Answer} (h : e.Falters entry answer) :
    ¬ answer.Refuses entry := by
  cases h with
  | loadFile hread herror =>
    rintro (rfl | rfl | rfl) <;> cases herror
  | reload hname hfile hread herror =>
    rintro (rfl | rfl | ⟨file, rfl | rfl⟩) <;> cases herror
  | executeSync source entity hqueued hfault => exact id

theorem placeOf_error {file : String} {error : EngineError} (h : placeOf file = .error error) :
    error = .noFile file ∨ error = .isFolder file ∨ error.isMalformed = true := by
  unfold placeOf at h
  split at h
  · cases h
    exact .inr (.inr rfl)
  · split at h <;> cases h
    · exact .inr (.inl rfl)
    · exact .inl rfl

theorem readFile_error {file : String} {error : EngineError} (h : e.readFile file = .error error) :
    error = .noFile file ∨ error = .isFolder file ∨ error.isMalformed = true := by
  unfold readFile contentOf at h
  cases hplace : placeOf file with
  | error error' =>
    rw [hplace] at h
    cases h
    exact placeOf_error hplace
  | ok place =>
    rw [hplace] at h
    cases hget : e.files.get? place with
    | none =>
      simp only [hget, bind, Except.bind] at h
      cases h
      exact .inl rfl
    | some content =>
      simp only [hget, bind, Except.bind] at h
      cases content <;> cases h
      exact .inr (.inr rfl)

/-- A file is not loaded after the shutdown. That there is no text in it is found out first. -/
theorem loadFile_of_closed (h : e.closed = true) (file : String) :
    ∃ error, e.loadFile file = .error error ∧
      (error = .closed ∨ error = .noFile file ∨ error = .isFolder file ∨
        e.readFile file = .error error ∧ error.isMalformed = true) := by
  cases hread : e.readFile file with
  | ok content =>
    refine ⟨.closed, ?_, .inl rfl⟩
    unfold loadFile
    rw [hread]
    exact load_of_closed h _ _ _
  | error error =>
    refine ⟨error, loadFile_of_error hread, .inr ?_⟩
    exact (readFile_error hread).imp_right (Or.imp_right fun herror => ⟨rfl, herror⟩)

theorem reload_of_closed (h : e.closed = true) (name : String) :
    ∃ error, e.reload name = .error error ∧
      (Answer.Refuses (.refused error) (.reload name) ∨ e.Falters (.reload name) (.refused error)) := by
  cases hname : e.get? name with
  | none =>
    refine ⟨.unknownScript name, ?_, .inl (.inr (.inl rfl))⟩
    unfold reload
    rw [hname]
  | some id =>
    cases hfile : (e.world.script id).sourceFile.filter e.files.contains with
    | none =>
      refine ⟨.closed, ?_, .inl (.inl rfl)⟩
      unfold reload
      rw [hname]
      dsimp only
      rw [hfile]
      exact load_of_closed h _ _ _
    | some file =>
      obtain ⟨error, hload, hanswer⟩ := loadFile_of_closed h file
      refine ⟨error, (reload_of_file hname hfile).trans hload, ?_⟩
      obtain hclosed | hnone | hfolder | ⟨hread, herror⟩ := hanswer
      · exact .inl (.inl hclosed)
      · exact .inl (.inr (.inr ⟨file, .inl hnone⟩))
      · exact .inl (.inr (.inr ⟨file, .inr hfolder⟩))
      · exact .inr (.reload hname hfile hread herror)

theorem execute_of_closed (h : e.closed = true) (script : Nat) (ctx : Option Nat) :
    e.execute script ctx = (e, shutDown) := if_pos h

theorem callFunction_of_closed (h : e.closed = true) (script : Nat) (name : String) (values : List Value)
    (ctx : Option Nat) : e.callFunction script name values ctx = (e, shutDown) := if_pos h

theorem executeInline_of_closed (h : e.closed = true) (source : String) (entity : Option Entity) :
    e.executeInline source entity = (e, shutDown) := by
  unfold executeInline
  rw [parse_of_closed h]

theorem parseOnWorker_of_closed (h : e.closed = true) (name source : String) :
    e.parseOnWorker name source = (e, .error .closed) := if_pos h

/-! ### Source texts from other threads -/

theorem drain_submit (e : Engine) (errand : Errand) :
    ({ e with queue := e.queue.submit errand }.drain none).1 =
      (e.promised.drain none).1.doErrand e.queue.promises.size errand := by
  have hall : ∀ waiting : List (Nat × Errand), waiting.take waiting.length = waiting ∧
      waiting.drop waiting.length = [] := fun waiting => ⟨List.take_length, List.drop_length⟩
  unfold drain MainQueue.take MainQueue.allowed promised MainQueue.submit
  simp only [hall, List.foldl_append, List.foldl_cons, List.foldl_nil]

theorem doErrand_inline_of_closed (h : e.closed = true) {ticket : Nat} (hopen : e.queue.isOpen ticket = true)
    (source : String) (entity : Option Entity) :
    e.doErrand ticket (.inline source entity) =
      { e with queue := e.queue.settle ticket (.ok shutDown) } := by
  unfold doErrand
  rw [if_pos hopen]
  dsimp only
  rw [executeInline_of_closed h]

/-- The promise of a source text that is handed in is open when its turn comes, and then it is refused. -/
theorem drain_inline_of_closed (h : e.closed = true) (ht : e.Ticketed) (source : String)
    (entity : Option Entity) :
    let e' := (e.promised.drain none).1
    ({ e with queue := e.queue.submit (.inline source entity) }.drain none).1 =
        { e' with queue := e'.queue.settle e.queue.promises.size (.ok shutDown) } ∧
      (e'.queue.settle e.queue.promises.size (.ok shutDown)).promises.get e.queue.promises.size =
        .kept shutDown := by
  intro e'
  have hproceeds : Proceeds (fun n => n < e.queue.promises.size) e.promised e' :=
    proceeds_drain e.promised none ht
  have hsize : e.promised.queue.promises.size = e.queue.promises.size + 1 := Table.size_push _ _
  have hle := hproceeds.size
  have hpending : e'.queue.promises.get e.queue.promises.size = .pending := by
    rw [hproceeds.promises _ (by omega) (Nat.lt_irrefl _)]
    exact Table.get_push_self _ _
  constructor
  · have hopen : e'.queue.isOpen e.queue.promises.size = true := by
      unfold MainQueue.isOpen
      rw [hpending]
    rw [drain_submit]
    exact doErrand_inline_of_closed (hproceeds.closed.trans h) hopen source entity
  · unfold MainQueue.settle Table.modify
    rw [Table.get_set_self _ _ (by omega), hpending]
    rfl

/-- A source text that is handed in after the shutdown: nothing is done but what waited before, and the result that
there may be is an error. -/
theorem handIn_of_closed (h : e.closed = true) (ht : e.Ticketed) (source : String) (entity : Option Entity)
    (drains : Drains) :
    Rests (if drains = .never then e else (e.promised.drain none).1) (e.handIn source entity drains) ∧
      ∀ outcome, (e.handIn source entity drains).queue.promises.get e.queue.promises.size = .kept outcome →
        outcome.isError = true := by
  unfold handIn
  dsimp only
  split
  · have hpending : (e.queue.submit (.inline source entity)).promises.get e.queue.promises.size = .pending :=
      Table.get_push_self _ _
    refine ⟨⟨rfl, rfl, rfl, rfl, rfl, rfl⟩, fun outcome hkept => ?_⟩
    cases hpending.symm.trans hkept
  · obtain ⟨hdrained, hshut⟩ := drain_inline_of_closed h ht source entity
    rw [hdrained]
    refine ⟨⟨rfl, rfl, rfl, rfl, rfl, rfl⟩, fun outcome hkept => ?_⟩
    cases hshut.symm.trans hkept
    rfl

theorem executeSync_of_closed (h : e.closed = true) (ht : e.Ticketed) (source : String)
    (entity : Option Entity) (otherThread : Bool) (drains : Drains) :
    let ended := e.executeSync source entity otherThread drains
    Rests (e.meanwhile (.executeSync source entity otherThread drains)) ended.1 ∧
      ((∃ outcome, ended.2 = .ok outcome ∧ outcome.isError = true) ∨
        ∃ fault, ended.2 = .error fault ∧
          e.Falters (.executeSync source entity otherThread drains) (.raised fault)) := by
  cases hother : e.queued && otherThread with
  | false =>
    unfold meanwhile executeSync
    dsimp only
    rw [hother, executeInline_of_closed h]
    exact ⟨.refl e, .inl ⟨shutDown, rfl, rfl⟩⟩
  | true =>
    obtain ⟨hrests, hkept⟩ := handIn_of_closed h ht source entity drains
    obtain ⟨hqueued, rfl⟩ := Bool.and_eq_true_iff.1 hother
    unfold meanwhile executeSync
    dsimp only
    rw [if_pos hother, if_pos hother]
    generalize e.handIn source entity drains = after at hrests hkept ⊢
    cases hfault : e.waitFault? drains with
    | some fault => exact ⟨hrests, .inr ⟨fault, rfl, .executeSync source entity hqueued hfault⟩⟩
    | none =>
      have hgivenUp : ∀ queue, Rests (if drains = .never then e else (e.promised.drain none).1)
          { after with queue := queue } := fun _ =>
        ⟨hrests.journal, hrests.store, hrests.lists, hrests.scripts, hrests.totals, hrests.registry⟩
      cases hpromise : after.queue.promises.get e.queue.promises.size with
      | kept outcome => exact ⟨hrests, .inl ⟨outcome, rfl, hkept outcome hpromise⟩⟩
      | _ => exact ⟨hgivenUp _, .inl ⟨_, rfl, rfl⟩⟩

end

/-! ### Events and commands -/

section

variable {answers : Script → Bool} {run : Engine → Nat → Engine × Outcome}

theorem inTurn_of_none {e : Engine} {ids : List Nat}
    (h : ids.filter (fun id => answers (e.world.script id)) = []) : inTurn answers run e ids = (e, []) := by
  induction ids with
  | nil => rfl
  | cons id rest ih =>
    obtain ⟨hid, hrest⟩ := List.forall_mem_cons.1 (List.filter_eq_nil_iff.1 h)
    unfold inTurn
    rw [if_neg hid]
    exact ih (List.filter_eq_nil_iff.2 hrest)

/-- A run of something in a script is counted once, and the scripts show the same as before. -/
def Counted (e e' : Engine) : Prop :=
  e'.world.totals.executions = e.world.totals.executions + 1 ∧
    ∀ id, (e'.world.script id).front = (e.world.script id).front

/-- Every script that answers is run and counted once. -/
theorem inTurn_counts (hrun : ∀ e id, Counted e (run e id).1)
    (hanswers : ∀ s s' : Script, s'.front = s.front → answers s' = answers s) (e : Engine) (ids : List Nat) :
    (inTurn answers run e ids).2.length = (ids.filter fun id => answers (e.world.script id)).length ∧
      (inTurn answers run e ids).1.world.totals.executions =
        e.world.totals.executions + (ids.filter fun id => answers (e.world.script id)).length := by
  induction ids generalizing e with
  | nil => exact ⟨rfl, rfl⟩
  | cons id rest ih =>
    unfold inTurn
    by_cases hid : answers (e.world.script id) = true
    · obtain ⟨hcount, hfronts⟩ := hrun e id
      have hsame : (fun other => answers ((run e id).1.world.script other)) =
          fun other => answers (e.world.script other) :=
        funext fun other => hanswers _ _ (hfronts other)
      obtain ⟨hlength, hexecutions⟩ := ih (run e id).1
      rw [hsame] at hlength hexecutions
      simp only [hid, List.filter_cons, if_true, List.length_cons]
      omega
    · simp only [hid, List.filter_cons]
      exact ih e

/-- The same from an engine that is ready for the call: every script that answers is run and counted once, and
nothing is run if there is none. -/
theorem inTurn_spec (hrun : ∀ e id, Counted e (run e id).1)
    (hanswers : ∀ s s' : Script, s'.front = s.front → answers s' = answers s) {e e' : Engine}
    (h : Rests e e') :
    let all := e.registry.values.filter fun id => answers (e.world.script id)
    let (after, outcomes) := inTurn answers run e' e'.registry.values
    outcomes.length = all.length ∧
      after.world.totals.executions = e.world.totals.executions + all.length ∧
      (all = [] → Rests e after) := by
  have hscript : e'.world.script = e.world.script := by
    funext id
    unfold World.script
    rw [h.scripts]
  obtain ⟨hlength, hexecutions⟩ := inTurn_counts hrun hanswers e' e'.registry.values
  rw [hscript, h.registry] at hlength hexecutions
  rw [h.totals] at hexecutions
  intro all
  rw [h.registry]
  refine ⟨hlength, hexecutions, fun hnone => ?_⟩
  have hnone' : e.registry.values.filter (fun id => answers (e'.world.script id)) = [] := by
    rw [hscript]
    exact hnone
  rw [inTurn_of_none hnone']
  exact h

end

theorem counted_runInClone (e : Engine) (script base : Nat) (prepare : Context → Context)
    (selection : Selection) : Counted e (e.runInClone script base prepare selection).1 :=
  Run.counted_timed (Run.alikeFrame.execute e.config script e.world.memory.contexts.size selection) script
    (e.world.changeMemory fun m => (m.cloneContext base).changeContext e.world.memory.contexts.size prepare)

theorem counted_handleEvent (base : Nat) (event : String) (e : Engine) (id : Nat) :
    Counted e (handleEvent base event e id).1 := by
  have hcounted := counted_runInClone e id base (fun c => c) (.which (Script.handlesEvent event))
  unfold handleEvent
  generalize e.runInClone id base (fun c => c) (.which (Script.handlesEvent event)) = ran at hcounted
  dsimp only
  split
  · exact hcounted
  · exact hcounted

theorem answers_congr {handles : Statement → Bool}
    (h : ∀ s s' : Statement, s.clause = s'.clause → handles s = handles s') (s s' : Script)
    (hfront : s'.front = s.front) : answers handles s' = answers handles s := by
  let test (clause : Clause) : Bool := handles ⟨clause, "", 0, 0, {}, []⟩
  have htest : ∀ s : Statement, handles s = test s.clause := fun s => h s _ rfl
  have hanswers : ∀ script : Script,
      answers handles script = (script.front.1 && script.front.2.any test) := by
    intro script
    unfold answers Script.front Script.handlers
    rw [Bool.eq_iff_iff]
    simp [htest]
  rw [hanswers, hanswers, hfront]

theorem handlesEvent_congr (event : String) (s s' : Statement) (h : s.clause = s'.clause) :
    Script.handlesEvent event s = Script.handlesEvent event s' := by
  unfold Script.handlesEvent
  rw [h]

theorem handlesCommand_congr (command : String) (s s' : Statement) (h : s.clause = s'.clause) :
    Script.handlesCommand command s = Script.handlesCommand command s' := by
  unfold Script.handlesCommand
  rw [h]

theorem rests_contextOrNew (e : Engine) (ctx : Option Nat) : Rests e (e.contextOrNew ctx).1 := by
  cases ctx <;> exact ⟨rfl, rfl, rfl, rfl, rfl, rfl⟩

/-- How a call for an event or a command ends: with one outcome for each script that answers, and these are
counted. Without such scripts nothing is run. -/
structure Dispatched (e : Engine) (entry : Entry) : Prop where
  outcomes : ∃ all, (e.call entry).2 = .outcomes all ∧ all.length = (e.answering entry).length
  executions : (e.call entry).1.world.totals.executions =
    e.world.totals.executions + (e.answering entry).length
  rests : e.answering entry = [] → Rests (e.meanwhile entry) (e.call entry).1

theorem dispatched_fireEvent (e : Engine) (event : String) (ctx : Option Nat) :
    Dispatched e (.fireEvent event ctx) := by
  have hready : Rests e ((e.contextOrNew ctx).1.changeContext (e.contextOrNew ctx).2 fun c =>
      { c with eventType := some event }) := by
    cases ctx <;> exact ⟨rfl, rfl, rfl, rfl, rfl, rfl⟩
  obtain ⟨hlength, hexecutions, hrests⟩ := inTurn_spec (counted_handleEvent (e.contextOrNew ctx).2 event)
    (answers_congr (handlesEvent_congr event)) hready
  rw [← fireIn_eq] at hlength hexecutions hrests
  exact ⟨⟨_, rfl, hlength⟩, hexecutions, hrests⟩

theorem dispatched_runCommand (e : Engine) (command : String) (ctx : Option Nat) :
    Dispatched e (.runCommand command ctx) := by
  have hcounted : ∀ e' id, Counted e' (handleCommand (e.contextOrNew ctx).2 command e' id).1 :=
    fun e' id => counted_runInClone e' id _ _ _
  obtain ⟨hlength, hexecutions, hrests⟩ := inTurn_spec hcounted (answers_congr (handlesCommand_congr command))
    (rests_contextOrNew e ctx)
  rw [← commandIn_eq] at hlength hexecutions hrests
  exact ⟨⟨_, rfl, hlength⟩, hexecutions, hrests⟩

theorem dispatched (e : Engine) {entry : Entry} (h : entry.dispatches = true) : Dispatched e entry := by
  cases entry with
  | fireEvent event ctx => exact dispatched_fireEvent e event ctx
  | runCommand command ctx => exact dispatched_runCommand e command ctx
  | _ => cases h

/-! ### All entry points -/

section

variable {e : Engine} {entry : Entry}

theorem meanwhile_of_dispatches (h : entry.dispatches = true) : e.meanwhile entry = e := by
  cases entry <;> first | rfl | cases h

theorem answering_of_not_dispatches (h : entry.dispatches = false) : e.answering entry = [] := by
  cases entry <;> first | rfl | cases h

theorem Falters.not_dispatches {answer : Answer} (h : e.Falters entry answer) : entry.dispatches = false := by
  cases h <;> rfl

theorem Answer.refuses_nil (h : entry.dispatches = true) : Answer.Refuses (.outcomes []) entry := by
  cases entry <;> first | exact List.forall_mem_nil _ | cases h

/-- A call that is not for an event or a command does nothing after the shutdown, and it is refused unless it
falters. -/
theorem refuses_of_closed (h : e.closed = true) (ht : e.Ticketed) (hentry : entry.dispatches = false) :
    Rests (e.meanwhile entry) (e.call entry).1 ∧
      ((e.call entry).2.Refuses entry ∨ e.Falters entry (e.call entry).2) := by
  cases entry with
  | parse | load | submit | parseOnWorker | runLater | runRepeating =>
    simp only [call, parse_of_closed h, load_of_closed h, submit_of_closed h, parseOnWorker_of_closed h,
      runLater_of_closed h, runRepeating_of_closed h]
    exact ⟨.refl e, .inl rfl⟩
  | execute | executeInline | callFunction =>
    simp only [call, execute_of_closed h, executeInline_of_closed h, callFunction_of_closed h]
    exact ⟨.refl e, .inl ⟨shutDown, rfl, rfl⟩⟩
  | loadFile file =>
    obtain ⟨error, hload, hclosed | hnone | hfolder | ⟨hread, herror⟩⟩ := loadFile_of_closed h file
    all_goals simp only [call, hload]
    · exact ⟨.refl e, .inl (.inl hclosed)⟩
    · exact ⟨.refl e, .inl (.inr (.inl hnone))⟩
    · exact ⟨.refl e, .inl (.inr (.inr hfolder))⟩
    · exact ⟨.refl e, .inr (.loadFile hread herror)⟩
  | reload name =>
    obtain ⟨error, hreload, hanswer⟩ := reload_of_closed h name
    simp only [call, hreload]
    exact ⟨.refl e, hanswer⟩
  | executeSync source entity otherThread drains =>
    obtain ⟨hrests, ⟨outcome, hended, herror⟩ | ⟨fault, hended, hfalters⟩⟩ :=
      executeSync_of_closed h ht source entity otherThread drains
    all_goals
      refine ⟨hrests, ?_⟩
      rw [call, Prod.map_snd, hended]
    · exact .inl ⟨outcome, rfl, herror⟩
    · exact .inr hfalters
  | fireEvent | runCommand => cases hentry

theorem refuses_iff_of_closed (h : e.closed = true) (ht : e.Ticketed) (hentry : entry.dispatches = false) :
    (e.call entry).2.Refuses entry ↔ ∀ answer, ¬ e.Falters entry answer := by
  constructor
  · intro hrefuses answer hfalters
    exact hfalters.not_refuses (hfalters.answer ▸ hrefuses)
  · intro hnone
    exact (refuses_of_closed h ht hentry).2.resolve_right (hnone _)

theorem Dispatched.rests_iff (h : Dispatched e entry) (hentry : entry.dispatches = true) :
    (e.call entry).2.Refuses entry ∧ Rests (e.meanwhile entry) (e.call entry).1 ↔ e.answering entry = [] := by
  obtain ⟨all, hall, hlength⟩ := h.outcomes
  constructor
  · rintro ⟨-, hrests⟩
    have hexecutions := h.executions
    rw [hrests.totals, meanwhile_of_dispatches hentry] at hexecutions
    exact List.eq_nil_of_length_eq_zero (by omega)
  · intro hanswering
    rw [hanswering] at hlength
    rw [hall, List.eq_nil_of_length_eq_zero hlength]
    exact ⟨Answer.refuses_nil hentry, h.rests hanswering⟩

end

/-- After the shutdown a call is refused and nothing is run, exactly if the call does not falter and is not for an
event or a command to which an enabled script answers. A call that falters does nothing either, and every script
that answers is run. -/
theorem rests_after_shutdown_iff (config : Config) (host : Host) (queued : Bool) (memory : Memory)
    (before later : List Operation) (entry : Entry) :
    let e := later.foldl after (before.foldl after (start config host queued memory)).shutdown
    ((e.call entry).2.Refuses entry ∧ Rests (e.meanwhile entry) (e.call entry).1 ↔
      e.answering entry = [] ∧ ∀ answer, ¬ e.Falters entry answer) ∧
    (∀ answer, e.Falters entry answer → (e.call entry).2 = answer) ∧
    (e.answering entry = [] → Rests (e.meanwhile entry) (e.call entry).1) ∧
    (e.answering entry ≠ [] →
      ∃ all, (e.call entry).2 = .outcomes all ∧ all.length = (e.answering entry).length ∧
        (e.call entry).1.world.totals.executions =
          e.world.totals.executions + (e.answering entry).length) := by
  intro e
  have hticketed : e.Ticketed :=
    ticketed_run ((continues_shutdown _).ticketed
      (ticketed_run (ticketed_start config host queued memory) before)) later
  have hclosed : e.closed = true := closed_run (continues_shutdown _).closed later
  have hanswer : ∀ answer, e.Falters entry answer → (e.call entry).2 = answer := fun _ => Falters.answer
  cases hentry : entry.dispatches with
  | true =>
    have hdispatched := dispatched e hentry
    obtain ⟨all, hall, hlength⟩ := hdispatched.outcomes
    have hnone : ∀ answer, ¬ e.Falters entry answer := fun answer hfalters =>
      Bool.noConfusion (hentry.symm.trans hfalters.not_dispatches)
    exact ⟨(hdispatched.rests_iff hentry).trans (and_iff_left hnone).symm, hanswer, hdispatched.rests,
      fun _ => ⟨all, hall, hlength, hdispatched.executions⟩⟩
  | false =>
    have hrests := (refuses_of_closed hclosed hticketed hentry).1
    have hnobody : e.answering entry = [] := answering_of_not_dispatches hentry
    refine ⟨?_, hanswer, fun _ => hrests, fun hne => absurd hnobody hne⟩
    rw [and_iff_left hrests, and_iff_right hnobody]
    exact refuses_iff_of_closed hclosed hticketed hentry

/-- A script with a handler is loaded, the engine is shut down, and then the event comes: the script is run,
and the host is called. -/
theorem runs_after_shutdown_of_handler :
    let load : Operation := .call (.load "s" "on join:\n    broadcast \"hi\"\n" none)
    ∃ e, e = [].foldl after ([load].foldl after (start {} (Roster.host {}) false {})).shutdown ∧
      e.closed = true ∧ e.answering (.fireEvent "join" none) = [0] ∧
      (∃ outcome, (e.call (.fireEvent "join" none)).2 = .outcomes [outcome]) ∧
      .called (.broadcast "hi") ∈ (e.call (.fireEvent "join" none)).1.world.journal ∧
      (e.call (.fireEvent "join" none)).1.world.totals.executions = e.world.totals.executions + 1 ∧
      ¬ Rests e (e.call (.fireEvent "join" none)).1 := by
  intro load
  have hevaluated :
      let e := [].foldl after ([load].foldl after (start {} (Roster.host {}) false {})).shutdown
      e.closed = true ∧ e.answering (.fireEvent "join" none) = [0] ∧
        .called (.broadcast "hi") ∈ (e.call (.fireEvent "join" none)).1.world.journal := by
    decide +kernel
  have hspec := rests_after_shutdown_iff {} (Roster.host {}) false {} [load] [] (.fireEvent "join" none)
  refine ⟨_, rfl, ?_⟩
  generalize [].foldl after ([load].foldl after (start {} (Roster.host {}) false {})).shutdown = e
    at hevaluated hspec ⊢
  obtain ⟨hclosed, hanswering, hcalled⟩ := hevaluated
  have hne : e.answering (.fireEvent "join" none) ≠ [] := by
    rw [hanswering]
    exact List.cons_ne_nil 0 []
  obtain ⟨-, -, -, hcounts⟩ := hspec
  obtain ⟨all, hall, hlength, hexecutions⟩ := hcounts hne
  rw [hanswering] at hlength hexecutions
  obtain ⟨outcome, rfl⟩ := List.length_eq_one_iff.1 hlength
  refine ⟨hclosed, hanswering, ⟨outcome, hall⟩, hcalled, hexecutions, fun hrests => ?_⟩
  rw [hrests.totals] at hexecutions
  exact Nat.succ_ne_self _ hexecutions.symm

end Engine

end EventScript
