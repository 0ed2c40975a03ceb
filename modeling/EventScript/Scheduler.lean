import EventScript.Data
import EventScript.Text.Literal

/-!
Delayed and repeating tasks.

A task has a timer. When the timer fires, the task is handed over to the workers, and its timer is set
again if the task repeats; else the task is done with. A worker runs the job of a task that was handed
over, unless the task was cancelled in the meantime. A job that fails cancels its task.

Main definitions:
* `Task`, `Scheduler`: tasks and what is known about them;
* `Scheduler.schedule`, `fire`, `start`, `cancel`, `shutdown`: the single steps;
* `Scheduler.runNext`: a job run by a worker;
* `Scheduler.due?`: the timer that fires next.
-/

namespace EventScript

set_option autoImplicit false

/-- A job that runs after a delay, and then again after each period if there is one. The timer, while it
is set, says when it fires and how many timers were set before it. -/
structure Task (ι : Type) where
  id : Nat
  name : String
  period : Option Number
  job : ι
  runs : Nat := 0
  cancelled : Bool := false
  registered : Bool := true
  timer : Option (Float × Nat) := none

namespace Task

variable {ι : Type}

def repeats (task : Task ι) : Bool := task.period.isSome

/-- The task in a report. -/
def shown (task : Task ι) : String :=
  let state := if task.cancelled then "cancelled" else "active"
  s!"ScheduledTask(id={task.id}, name={literal task.name}, {state}, runs={task.runs})"

/-- What is told about a task, by name. -/
def facts (task : Task ι) : List (String × Data) :=
  [("id", .int task.id), ("name", .text task.name),
   ("period", (task.period.map Data.ofNumber).getD .null), ("repeating", .bool task.repeats),
   ("cancelled", .bool task.cancelled), ("runs", .int task.runs), ("repr", .text task.shown)]

end Task

/-- Tasks in the order in which they were scheduled. Task `n` of the list has the id `n + 1`. -/
structure Scheduler (ι : Type) where
  tasks : List (Task ι) := []
  now : Float := 0.0
  timersSet : Nat := 0
  handedOver : List Nat := []
  closed : Bool := false

/-- Why nothing was scheduled. -/
inductive ScheduleRefusal where
  | period (period : Number)
  | closed
deriving DecidableEq, Repr

namespace ScheduleRefusal

private def numberText : Number → String
  | .int n => Number.intText n
  | .float x => Number.floatText x

def message : ScheduleRefusal → String
  | period p => s!"period must be positive, got {numberText p}"
  | closed => "Scheduler is shut down"

end ScheduleRefusal

namespace Scheduler

variable {ι : Type}

instance : Inhabited (Scheduler ι) := ⟨{}⟩

def task? (s : Scheduler ι) (id : Nat) : Option (Task ι) := s.tasks.find? fun task => task.id == id

/-- The number of tasks that may still fire. -/
def active (s : Scheduler ι) : Nat := (s.tasks.filter fun task => task.registered).length

def change (s : Scheduler ι) (id : Nat) (f : Task ι → Task ι) : Scheduler ι :=
  { s with tasks := s.tasks.map fun task => if task.id = id then f task else task }

/-- Sets the timer of a task. -/
def arm (s : Scheduler ι) (id : Nat) (delay : Float) : Scheduler ι :=
  let s' := s.change id fun task => { task with timer := some (s.now + delay, s.timersSet) }
  { s' with timersSet := s.timersSet + 1 }

private def seconds : Number → Float
  | .int n => (Number.ofInt? n).getD (Number.infinity (decide (n < 0)))
  | .float x => x

private def isPositive (period : Number) : Bool := !period.le (.int 0)

/-- A new task, which gets the next id. An empty name stands for none. -/
def schedule (s : Scheduler ι) (job : ι) (delay : Number) (period : Option Number)
    (name : Option String) : Except ScheduleRefusal (Scheduler ι × Nat) :=
  match period.filter fun p => !isPositive p with
  | some p => .error (.period p)
  | none =>
    if s.closed then .error .closed
    else
      let id := s.tasks.length + 1
      let given := (name.filter fun n => !n.isEmpty).getD s!"task-{id}"
      let task : Task ι := { id := id, name := given, period := period, job := job }
      let wait := if delay.lt (.int 0) then 0.0 else seconds delay
      .ok ({ s with tasks := s.tasks ++ [task] }.arm id wait, id)

/-- Cancels a task: its timer stops and it is no longer registered. -/
def cancel (s : Scheduler ι) (id : Nat) : Scheduler ι :=
  s.change id fun task => { task with cancelled := true, registered := false, timer := none }

/-- Cancels a task if it is registered, and says whether it was. -/
def cancelById (s : Scheduler ι) (id : Nat) : Scheduler ι × Bool :=
  match s.task? id with
  | some task => if task.registered then (s.cancel id, true) else (s, false)
  | none => (s, false)

def cancelAll (s : Scheduler ι) : Scheduler ι :=
  (s.tasks.filter fun task => task.registered).foldl (fun s task => s.cancel task.id) s

/-- The timer of a task fires: the task is handed over and its timer set again if it repeats. After a
shutdown the task is cancelled instead. -/
def fire (s : Scheduler ι) (id : Nat) : Scheduler ι :=
  match s.task? id with
  | none => s
  | some task =>
    let s := s.change id fun task => { task with timer := none }
    if task.cancelled then s
    else if s.closed then s.cancel id
    else
      let s := { s with handedOver := s.handedOver ++ [id] }
      match task.period with
      | some period => s.arm id (seconds period)
      | none => s.change id fun task => { task with registered := false }

/-- A worker takes the task that was handed over first, and gets its job to run, unless the task was
cancelled. -/
def start (s : Scheduler ι) : Scheduler ι × Option (Nat × ι) :=
  match s.handedOver with
  | [] => (s, none)
  | id :: rest =>
    let s := { s with handedOver := rest }
    match s.task? id with
    | some task =>
      if task.cancelled then (s, none)
      else (s.change id fun task => { task with runs := task.runs + 1 }, some (id, task.job))
    | none => (s, none)

/-- A worker runs the job of the task that was handed over first. A job that fails cancels its task. -/
def runNext {σ ε : Type} (work : σ → ι → σ × Except ε Unit) (s : Scheduler ι) (state : σ) :
    Scheduler ι × σ :=
  match s.start with
  | (s, none) => (s, state)
  | (s, some (id, job)) =>
    match work state job with
    | (state, .ok _) => (s, state)
    | (state, .error _) => (s.cancel id, state)

/-- Whether work that is no task is taken. -/
def accept (s : Scheduler ι) : Except ScheduleRefusal Unit :=
  if s.closed then .error .closed else .ok ()

/-- No more work is taken and all tasks are cancelled. -/
def shutdown (s : Scheduler ι) : Scheduler ι :=
  if s.closed then s else { s with closed := true }.cancelAll

/-! ## Time -/

private def earlier (a b : Float × Nat) : Bool :=
  decide (a.1 < b.1) || (a.1 == b.1 && decide (a.2 < b.2))

/-- The task whose timer fires next, no later than a time. Of two timers for the same time the one that was
set first fires first. -/
def due? (s : Scheduler ι) (target : Float) : Option (Nat × Float) :=
  let armed := s.tasks.filterMap fun task => task.timer.map fun timer => (task.id, timer)
  let ready := armed.filter fun entry => decide (entry.2.1 ≤ target)
  (ready.foldl (fun best entry =>
    match best with
    | none => some entry
    | some b => if earlier entry.2 b.2 then some entry else some b) none).map
      fun entry => (entry.1, entry.2.1)

/-- At most so many timers fire up to a time: each task fires once, and again for every period. -/
def firingBound (s : Scheduler ι) (target : Float) : Nat :=
  s.tasks.foldl (fun bound task => bound +
    match task.timer, task.period with
    | some (time, _), some period =>
      ((target - time) / seconds period).toUInt64.toNat + 2
    | some _, none => 1
    | none, _ => 0) 0

/-- Lets timers fire, one after another, up to a time; `work` runs what is handed over. At most so many
timers fire. -/
def fireUntil {σ : Type} (work : Scheduler ι → σ → Scheduler ι × σ) (target : Float) :
    Nat → Scheduler ι → σ → Scheduler ι × σ
  | 0, s, state => (s, state)
  | more + 1, s, state =>
    match s.due? target with
    | none => (s, state)
    | some (id, time) =>
      let (s, state) := work ({ s with now := time }.fire id) state
      fireUntil work target more s state

/-- Lets so many seconds pass. -/
def tick {σ : Type} (work : Scheduler ι → σ → Scheduler ι × σ) (s : Scheduler ι) (state : σ)
    (passed : Float) : Scheduler ι × σ :=
  let target := s.now + passed
  let (s, state) := fireUntil work target (s.firingBound target) s state
  ({ s with now := target }, state)

end Scheduler

end EventScript
