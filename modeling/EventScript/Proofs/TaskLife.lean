import EventScript.Scheduler
import Mathlib.Data.List.Nodup
import Mathlib.Data.List.Perm.Basic

/-!
The life of a task.

What becomes of a task is told by the past of its scheduler: which timers fired, which jobs workers started,
and which steps cancelled it, from a fresh scheduler on. Timers, workers and programs take steps in any order;
a worker may take any of the runs that were handed over, and between the start of a job and its failure other
steps may be taken.

Main definitions:
* `Scheduler.Action`, `Scheduler.Past`: steps, and schedulers with their past;
* `Scheduler.fired`, `starts`, `cancelled`: what the past says of a task;
* `Scheduler.Tells`: how a scheduler goes with its past.

Main facts:
* `Scheduler.tasks_after`, `load_after`: what one step does to the tasks and to what was handed over;
* `Scheduler.Tells.step`, `Past.tells`: one step, and all of them;
* `Scheduler.task_life`: what holds of every task at any time;
* `Scheduler.Past.runNext`: a worker that runs the job that is next takes such steps.
-/

namespace EventScript

set_option autoImplicit false

/-- The task cancelled. -/
def Task.stop {ι : Type} (task : Task ι) : Task ι :=
  { task with cancelled := true, registered := false, timer := none }

/-- The task after its timer fired; where it repeats, a new timer is set. -/
def Task.afterFiring {ι : Type} (task : Task ι) (timer : Option (Float × Nat)) : Task ι :=
  if task.cancelled then { task with timer := none }
  else if task.repeats then { task with timer := timer }
  else { task with timer := none, registered := false }

namespace Scheduler

/-! ## Steps -/

/-- A step of a scheduler. -/
inductive Action (ι : Type) where
  | schedule (job : ι) (delay : Number) (period : Option Number) (name : Option String)
  /-- The timer of a task fires. -/
  | fire (id : Nat)
  /-- A worker takes a run of a task that was handed over. -/
  | take (id : Nat)
  /-- The job of a task fails that a worker has started. -/
  | fail (id : Nat)
  /-- A run that was handed over is given up. -/
  | drop (id : Nat)
  | cancel (id : Nat)
  | cancelById (id : Nat)
  | cancelAll
  | shutdown
  | wait (time : Float)

variable {ι : Type}

/-- The scheduler with a run of a task as the first of those that were handed over. -/
def bring (s : Scheduler ι) (id : Nat) : Scheduler ι :=
  { s with handedOver := id :: s.handedOver.erase id }

namespace Action

/-- The scheduler after a step. -/
def after (s : Scheduler ι) : Action ι → Scheduler ι
  | schedule job delay period name =>
    match s.schedule job delay period name with
    | .ok (s', _) => s'
    | .error _ => s
  | fire id => s.fire id
  | take id => (s.bring id).start.1
  | fail id => s.cancel id
  | drop id => { s with handedOver := s.handedOver.erase id }
  | cancel id => s.cancel id
  | cancelById id => (s.cancelById id).1
  | cancelAll => s.cancelAll
  | shutdown => s.shutdown
  | wait time => { s with now := time }

/-- Whether the timer of a task fires in a step. -/
def fires (id : Nat) : Action ι → Bool
  | fire other => other == id
  | _ => false

/-- Whether a worker starts the job of a task in a step. -/
def starts (s : Scheduler ι) (id : Nat) : Action ι → Bool
  | take other => (s.bring other).start.2.any fun run => run.1 == id
  | _ => false

/-- Whether a step cancels a task. A task that is not registered is cancelled by itself or by its failure
only. -/
def cancels (s : Scheduler ι) (id : Nat) (action : Action ι) : Bool :=
  (s.task? id).any fun task =>
    match action with
    | fail other | cancel other => other == id
    | cancelById other => other == id && task.registered
    | cancelAll | shutdown => task.registered
    | _ => false

/-- Whether a step shuts the scheduler down. -/
def closes : Action ι → Bool
  | shutdown => true
  | _ => false

end Action

/-! ## The past -/

/-- Whether the timer of a task has fired. -/
def fired (past : List (Scheduler ι × Action ι)) (id : Nat) : Bool := past.any fun entry => entry.2.fires id

/-- How often the job of a task was started. -/
def starts (past : List (Scheduler ι × Action ι)) (id : Nat) : Nat :=
  past.countP fun entry => entry.2.starts entry.1 id

/-- Whether a task was cancelled. -/
def cancelled (past : List (Scheduler ι × Action ι)) (id : Nat) : Bool :=
  past.any fun entry => entry.2.cancels entry.1 id

/-- What must be so for a step to be taken. A timer fires that is set, or that was stopped too late. -/
def Fits (past : List (Scheduler ι × Action ι)) (s : Scheduler ι) : Action ι → Prop
  | .fire id => ((s.task? id).any fun task => task.timer.isSome || task.cancelled) = true
  | .take id => id ∈ s.handedOver
  | .fail id => 0 < starts past id
  | _ => True

instance (past : List (Scheduler ι × Action ι)) (s : Scheduler ι) :
    (action : Action ι) → Decidable (Fits past s action)
  | .fire _ => inferInstanceAs (Decidable (_ = true))
  | .take id => inferInstanceAs (Decidable (id ∈ s.handedOver))
  | .fail id => inferInstanceAs (Decidable (0 < starts past id))
  | .schedule .. | .drop _ | .cancel _ | .cancelById _ | .cancelAll | .shutdown | .wait _ => .isTrue trivial

/-- A scheduler that has come about from a fresh one by steps, the latest first, each with the scheduler that
it found. -/
inductive Past : List (Scheduler ι × Action ι) → Scheduler ι → Prop
  | start (time : Float) : Past [] { now := time }
  | step {past : List (Scheduler ι × Action ι)} {s : Scheduler ι} (h : Past past s) (action : Action ι)
      (hfits : Fits past s action) : Past ((s, action) :: past) (action.after s)

/-- How a task goes with the past. -/
structure TellsOf (past : List (Scheduler ι × Action ι)) (s : Scheduler ι) (task : Task ι) : Prop where
  cancelled : task.cancelled = cancelled past task.id
  registered : task.registered = (!task.cancelled && (task.repeats || !fired past task.id))
  runs : task.runs = starts past task.id
  timer : task.timer.isSome = true → task.registered = true
  once : task.repeats = false →
    starts past task.id + s.handedOver.count task.id ≤ (fired past task.id).toNat

/-- How a scheduler goes with its past. -/
structure Tells (past : List (Scheduler ι × Action ι)) (s : Scheduler ι) : Prop where
  ids : s.tasks.map (·.id) = (List.range s.tasks.length).map (· + 1)
  tasks : ∀ task ∈ s.tasks, TellsOf past s task
  unknown : ∀ id, s.task? id = none →
    cancelled past id = false ∧ fired past id = false ∧ starts past id = 0 ∧ id ∉ s.handedOver
  closed : s.closed = past.any fun entry => entry.2.closes
  done : s.closed = true → ∀ task ∈ s.tasks, task.registered = false

section

variable {s : Scheduler ι} {past : List (Scheduler ι × Action ι)} {task : Task ι} {id : Nat}

theorem Tells.nodup (h : Tells past s) : (s.tasks.map (·.id)).Nodup := by
  rw [h.ids]
  exact List.nodup_range.map fun _ _ => Nat.succ.inj

theorem task?_eq_some (h : Tells past s) : s.task? id = some task ↔ task ∈ s.tasks ∧ task.id = id := by
  constructor
  · intro hfind
    exact ⟨List.mem_of_find?_eq_some hfind, by simpa using List.find?_some hfind⟩
  · rintro ⟨hmem, rfl⟩
    obtain ⟨other, hfind⟩ : ∃ other, s.task? task.id = some other :=
      Option.isSome_iff_exists.1 (List.find?_isSome.2 ⟨task, hmem, by simp⟩)
    have hother : other.id = task.id := by simpa using List.find?_some hfind
    rw [hfind, List.inj_on_of_nodup_map h.nodup (List.mem_of_find?_eq_some hfind) hmem hother]

theorem task?_eq_none : s.task? id = none ↔ ∀ task ∈ s.tasks, task.id ≠ id := by
  unfold task?
  simp

/-! ## What a step does -/

/-- What a step does to a task; `timer` is the new timer of a task that repeats. -/
def Action.effect (s : Scheduler ι) (timer : Option (Float × Nat)) (action : Action ι) (task : Task ι) :
    Task ι :=
  if action.cancels s task.id then task.stop
  else if action.fires task.id then task.afterFiring timer
  else if action.starts s task.id then { task with runs := task.runs + 1 }
  else task

@[simp] theorem id_effect (s : Scheduler ι) (timer : Option (Float × Nat)) (action : Action ι)
    (task : Task ι) : (action.effect s timer task).id = task.id := by
  unfold Action.effect Task.afterFiring
  repeat' split
  all_goals rfl

@[simp] theorem repeats_effect (s : Scheduler ι) (timer : Option (Float × Nat)) (action : Action ι)
    (task : Task ι) : (action.effect s timer task).repeats = task.repeats := by
  unfold Action.effect Task.afterFiring
  repeat' split
  all_goals rfl

theorem cancels_of_mem (h : Tells past s) (hmem : task ∈ s.tasks) (action : Action ι) :
    action.cancels s task.id = match action with
      | .fail other | .cancel other => other == task.id
      | .cancelById other => other == task.id && task.registered
      | .cancelAll | .shutdown => task.registered
      | _ => false := by
  unfold Action.cancels
  rw [(task?_eq_some h).2 ⟨hmem, rfl⟩]
  rfl

/-- The scheduler without one of the runs of a task that were handed over. -/
def without (s : Scheduler ι) (id : Nat) : Scheduler ι := { s with handedOver := s.handedOver.erase id }

theorem start_bring_of_none (h : s.task? id = none) : (s.bring id).start = (s.without id, none) := by
  have hnone : (s.without id).task? id = none := h
  unfold without at hnone
  unfold bring start
  dsimp only
  rw [hnone]
  rfl

theorem start_bring_of_some (h : s.task? id = some task) :
    (s.bring id).start =
      if task.cancelled then (s.without id, none)
      else ((s.without id).change id fun task => { task with runs := task.runs + 1 }, some (id, task.job)) := by
  have hsome : (s.without id).task? id = some task := h
  unfold without at hsome
  unfold bring start
  dsimp only
  rw [hsome]
  rfl

theorem starts_take (s : Scheduler ι) (other id : Nat) :
    (Action.take other).starts s id = (other == id && (s.task? other).any fun task => !task.cancelled) := by
  unfold Action.starts
  dsimp only
  cases htask : s.task? other with
  | none => simp [start_bring_of_none htask]
  | some task =>
    rw [start_bring_of_some htask]
    cases hcancelled : task.cancelled <;> simp [hcancelled]

theorem tasks_take (s : Scheduler ι) (id : Nat) :
    ((s.bring id).start.1).tasks = s.tasks.map fun task =>
      if (Action.take id).starts s task.id then { task with runs := task.runs + 1 } else task := by
  have hstarts (other : Nat) := starts_take s id other
  simp only [hstarts]
  cases htask : s.task? id with
  | none => simp [start_bring_of_none htask, without]
  | some task =>
    rw [start_bring_of_some htask]
    cases hcancelled : task.cancelled with
    | true => simp [hcancelled, without]
    | false =>
      refine List.map_congr_left fun other _ => ?_
      by_cases hother : other.id = id
      · simp [hother, hcancelled]
      · simp [hother, Ne.symm hother]

theorem handedOver_take (s : Scheduler ι) (id : Nat) :
    ((s.bring id).start.1).handedOver = s.handedOver.erase id ∧
      ((s.bring id).start.1).closed = s.closed := by
  cases htask : s.task? id with
  | none =>
    rw [start_bring_of_none htask]
    exact ⟨rfl, rfl⟩
  | some task =>
    rw [start_bring_of_some htask]
    split <;> exact ⟨rfl, rfl⟩

theorem foldl_cancel (s : Scheduler ι) (tasks : List (Task ι)) :
    tasks.foldl (fun s task => s.cancel task.id) s =
      { s with tasks := s.tasks.map fun task => if task.id ∈ tasks.map (·.id) then task.stop else task } := by
  induction tasks generalizing s with
  | nil => simp
  | cons first rest ih =>
    rw [List.foldl_cons, ih]
    unfold cancel change
    simp only [List.map_map, List.map_cons, List.mem_cons, Scheduler.mk.injEq, and_true]
    refine List.map_congr_left fun task _ => ?_
    by_cases hfirst : task.id = first.id
    · by_cases hrest : first.id ∈ rest.map (·.id) <;> simp [hfirst, hrest, Task.stop]
    · simp [hfirst]

theorem map_eq_self {α : Type} {l : List α} {f : α → α} (h : ∀ a ∈ l, f a = a) : l.map f = l :=
  (List.map_congr_left h).trans (List.map_id l)

theorem cancelById_eq (h : Tells past s) (id : Nat) :
    (s.cancelById id).1 =
      { s with
        tasks := s.tasks.map fun task => if id == task.id && task.registered then task.stop else task } := by
  have hkept (hnot : ∀ task ∈ s.tasks, task.id = id → task.registered = false) :
      s = { s with
        tasks := s.tasks.map fun task => if id == task.id && task.registered then task.stop else task } := by
    rw [map_eq_self fun task hmem => ?_]
    by_cases hid : task.id = id
    · simp [hnot task hmem hid]
    · simp [Ne.symm hid]
  unfold cancelById
  cases htask : s.task? id with
  | none => exact hkept fun task hmem hid => absurd hid (task?_eq_none.1 htask task hmem)
  | some task =>
    obtain ⟨hmem, hid⟩ := (task?_eq_some h).1 htask
    have hsame : ∀ other ∈ s.tasks, other.id = id → other = task := fun other hother heq =>
      List.inj_on_of_nodup_map h.nodup hother hmem (heq.trans hid.symm)
    dsimp only
    cases hregistered : task.registered with
    | false =>
      rw [if_neg Bool.false_ne_true]
      refine hkept fun other hother heq => ?_
      rw [hsame other hother heq, hregistered]
    | true =>
      rw [if_pos rfl]
      refine congrArg (fun tasks => { s with tasks := tasks }) (List.map_congr_left fun other hother => ?_)
      by_cases heq : other.id = id
      · rw [hsame other hother heq]
        simp [hid, hregistered, Task.stop]
      · simp [heq, Ne.symm heq]

theorem cancelAll_eq (h : (s.tasks.map (·.id)).Nodup) :
    s.cancelAll =
      { s with tasks := s.tasks.map fun task => if task.registered then task.stop else task } := by
  unfold cancelAll
  rw [foldl_cancel]
  congr 1
  refine List.map_congr_left fun task hmem => ?_
  have hregistered : task.id ∈ (s.tasks.filter fun task => task.registered).map (·.id) ↔
      task.registered = true := by
    rw [List.mem_map]
    constructor
    · rintro ⟨other, hother, hid⟩
      obtain ⟨hother, hregistered⟩ := List.mem_filter.1 hother
      rwa [List.inj_on_of_nodup_map h hmem hother hid.symm]
    · exact fun hregistered => ⟨task, List.mem_filter.2 ⟨hmem, hregistered⟩, rfl⟩
  simp only [hregistered]

theorem shutdown_eq (h : Tells past s) :
    s.shutdown =
      { s with
        closed := true
        tasks := s.tasks.map fun task => if task.registered then task.stop else task } := by
  unfold shutdown
  cases hclosed : s.closed with
  | true =>
    have hnone : ∀ task ∈ s.tasks, (if task.registered then task.stop else task) = task := by
      intro task hmem
      simp [h.done hclosed task hmem]
    rw [if_pos rfl, map_eq_self hnone, ← hclosed]
  | false =>
    rw [if_neg Bool.false_ne_true]
    exact cancelAll_eq (s := { s with closed := true }) h.nodup

/-- A task that was just scheduled, with its id. -/
structure Fresh (id : Nat) (task : Task ι) : Prop where
  id : task.id = id
  cancelled : task.cancelled = false
  registered : task.registered = true
  runs : task.runs = 0

theorem schedule_cases (s : Scheduler ι) (job : ι) (delay : Number) (period : Option Number)
    (name : Option String) :
    (∃ refusal, s.schedule job delay period name = .error refusal) ∨
      s.closed = false ∧ ∃ task wait, Fresh (s.tasks.length + 1) task ∧
        s.schedule job delay period name =
          .ok ({ s with tasks := s.tasks ++ [task] }.arm (s.tasks.length + 1) wait, s.tasks.length + 1) := by
  unfold schedule
  split
  · exact .inl ⟨_, rfl⟩
  · split
    · exact .inl ⟨_, rfl⟩
    · rename_i hopen
      exact .inr ⟨Bool.eq_false_iff.2 hopen, _, _, ⟨rfl, rfl, rfl, rfl⟩, rfl⟩

theorem effect_fire (h : Tells past s) (hmem : task ∈ s.tasks) (timer : Option (Float × Nat)) :
    (Action.fire id).effect s timer task = if task.id = id then task.afterFiring timer else task := by
  unfold Action.effect
  rw [cancels_of_mem h hmem]
  by_cases hid : task.id = id
  · simp [Action.fires, hid]
  · simp [Action.fires, Action.starts, hid, Ne.symm hid]

/-- What a timer that fires does: nothing after a cancel; else the task is handed over, and its timer is set
again if it repeats. -/
theorem fire_cases (h : Tells past s) (hfits : Fits past s (.fire id)) :
    ∃ timer, (s.fire id).tasks = s.tasks.map ((Action.fire id).effect s timer) ∧
      (s.fire id).closed = s.closed ∧
      ((s.fire id).handedOver = s.handedOver ∨ (s.fire id).handedOver = s.handedOver ++ [id] ∧
        ∃ task ∈ s.tasks, task.id = id ∧ task.registered = true) := by
  obtain ⟨task, htask, hready⟩ := (Option.any_eq_true _ _).1 hfits
  rw [Bool.or_eq_true] at hready
  obtain ⟨hmem, hid⟩ := (task?_eq_some h).1 htask
  -- the effect is looked up for the one task with the id
  have hmap (timer : Option (Float × Nat)) {f : Task ι → Task ι} (hf : f task = task.afterFiring timer)
      (hother : ∀ other, other.id ≠ id → f other = other) :
      s.tasks.map f = s.tasks.map ((Action.fire id).effect s timer) := by
    refine List.map_congr_left fun other hmem' => ?_
    rw [effect_fire h hmem']
    by_cases heq : other.id = id
    · rw [if_pos heq, List.inj_on_of_nodup_map h.nodup hmem' hmem (heq.trans hid.symm), hf]
    · rw [if_neg heq, hother other heq]
  unfold fire
  rw [htask]
  dsimp only
  cases hcancelled : task.cancelled with
  | true =>
    refine ⟨none, hmap none ?_ ?_, rfl, .inl rfl⟩
    · simp [hid, Task.afterFiring, hcancelled]
    · intro other hne
      exact if_neg hne
  | false =>
    have hregistered : task.registered = true := by
      refine (h.tasks task hmem).timer (hready.resolve_right ?_)
      simp [hcancelled]
    have hopen : s.closed = false := by
      cases hclosed : s.closed with
      | false => rfl
      | true => rw [h.done hclosed task hmem] at hregistered
                cases hregistered
    have hhanded : ∃ task ∈ s.tasks, task.id = id ∧ task.registered = true :=
      ⟨task, hmem, hid, hregistered⟩
    have hchange (f : Task ι → Task ι) : (s.change id f).closed = false := hopen
    rw [if_neg Bool.false_ne_true, if_neg (by simp [hchange])]
    cases hperiod : task.period with
    | none =>
      refine ⟨none, (List.map_map ..).trans (hmap none ?_ ?_), rfl, .inr ⟨rfl, hhanded⟩⟩
      · simp [hid, Task.afterFiring, Task.repeats, hcancelled, hperiod]
      · intro other hne
        simp [hne]
    | some period =>
      refine ⟨some (?time, ?count), ?tasks, rfl, .inr ⟨rfl, hhanded⟩⟩
      case tasks =>
      refine (List.map_map ..).trans (hmap _ ?_ ?_)
      · simp only [Function.comp_apply, hid, if_true, Task.afterFiring, Task.repeats, hcancelled, hperiod,
          Bool.false_eq_true, if_false, Option.isSome_some]
        rfl
      · intro other hne
        simp [hne]

theorem Tells.id_le (h : Tells past s) (hmem : task ∈ s.tasks) : task.id ≤ s.tasks.length := by
  have hid : task.id ∈ s.tasks.map (·.id) := List.mem_map_of_mem hmem
  rw [h.ids, List.mem_map] at hid
  obtain ⟨n, hn, hid⟩ := hid
  have hn := List.mem_range.1 hn
  omega

theorem Fresh.arm (h : Fresh id task) (timer : Option (Float × Nat)) :
    Fresh id { task with timer := timer } :=
  ⟨h.id, h.cancelled, h.registered, h.runs⟩

/-- Steps that are neither a timer that fires nor a worker that takes a run touch a task by a cancel only. -/
theorem map_effect_of_cancels {action : Action ι} (timer : Option (Float × Nat))
    (hfires : ∀ id, action.fires id = false) (hstarts : ∀ id, action.starts s id = false)
    {f : Task ι → Task ι}
    (hf : ∀ task ∈ s.tasks, f task = if action.cancels s task.id then task.stop else task) :
    s.tasks.map f = s.tasks.map (action.effect s timer) := by
  refine List.map_congr_left fun task hmem => ?_
  rw [hf task hmem]
  unfold Action.effect
  simp [hfires, hstarts]

/-- What a step does to the tasks. At most one is new. -/
theorem tasks_after (h : Tells past s) {action : Action ι} (hfits : Fits past s action) :
    ∃ timer new, (action.after s).tasks = s.tasks.map (action.effect s timer) ++ new ∧
      (new = [] ∨ s.closed = false ∧ action.closes = false ∧
        ∃ task, new = [task] ∧ Fresh (s.tasks.length + 1) task) := by
  -- for all steps but those of a timer, a worker, and one that brings a new task
  have hcancels (hfires : ∀ id, action.fires id = false) (hstarts : ∀ id, action.starts s id = false)
      {f : Task ι → Task ι} (htasks : (action.after s).tasks = s.tasks.map f)
      (hf : ∀ task ∈ s.tasks, f task = if action.cancels s task.id then task.stop else task) :
      ∃ timer new, (action.after s).tasks = s.tasks.map (action.effect s timer) ++ new ∧
        (new = [] ∨ s.closed = false ∧ action.closes = false ∧
        ∃ task, new = [task] ∧ Fresh (s.tasks.length + 1) task) := by
    refine ⟨none, [], ?_, .inl rfl⟩
    rw [List.append_nil, htasks]
    exact map_effect_of_cancels none hfires hstarts hf
  cases action with
  | schedule job delay period name =>
    have hnone : ∀ task ∈ s.tasks,
        task = if (Action.schedule job delay period name).cancels s task.id then task.stop else task := by
      intro task hmem
      rw [cancels_of_mem h hmem]
      simp
    unfold Action.after at hcancels ⊢
    dsimp only at hcancels ⊢
    rcases schedule_cases s job delay period name with
      ⟨refusal, hrefused⟩ | ⟨hopen, task, wait, hfresh, hscheduled⟩
    · rw [hrefused] at hcancels ⊢
      exact hcancels (fun _ => rfl) (fun _ => rfl) (List.map_id _).symm hnone
    · rw [hscheduled]
      refine ⟨none, [{ task with timer := some (s.now + wait, s.timersSet) }], ?_,
        .inr ⟨hopen, rfl, _, rfl, hfresh.arm _⟩⟩
      have hold : ∀ task ∈ s.tasks, task.id ≠ s.tasks.length + 1 := by
        intro task hmem
        have := h.id_le hmem
        omega
      unfold arm change
      dsimp only
      rw [List.map_append, List.map_singleton, if_pos hfresh.id]
      congr 1
      refine map_effect_of_cancels none (fun _ => rfl) (fun _ => rfl) fun task hmem => ?_
      rw [if_neg (hold task hmem)]
      exact hnone task hmem
  | fire id =>
    obtain ⟨timer, htasks, -, -⟩ := fire_cases h hfits
    refine ⟨timer, [], ?_, .inl rfl⟩
    rw [List.append_nil]
    exact htasks
  | take id =>
    refine ⟨none, [], ?_, .inl rfl⟩
    rw [List.append_nil]
    refine (tasks_take s id).trans (List.map_congr_left fun task hmem => ?_)
    unfold Action.effect
    rw [cancels_of_mem h hmem]
    simp [Action.fires]
  | fail id | cancel id =>
    refine hcancels (fun _ => rfl) (fun _ => rfl) rfl fun task hmem => ?_
    rw [cancels_of_mem h hmem]
    by_cases hid : task.id = id
    · simp [hid, Task.stop]
    · simp [hid, Ne.symm hid]
  | drop id | wait time =>
    refine hcancels (fun _ => rfl) (fun _ => rfl) (List.map_id _).symm fun task hmem => ?_
    rw [cancels_of_mem h hmem]
    simp
  | cancelById id =>
    refine hcancels (fun _ => rfl) (fun _ => rfl) (congrArg tasks (cancelById_eq h id)) fun task hmem => ?_
    rw [cancels_of_mem h hmem]
  | cancelAll =>
    refine hcancels (fun _ => rfl) (fun _ => rfl) (congrArg tasks (cancelAll_eq h.nodup)) fun task hmem => ?_
    rw [cancels_of_mem h hmem]
  | shutdown =>
    refine hcancels (fun _ => rfl) (fun _ => rfl) (congrArg tasks (shutdown_eq h)) fun task hmem => ?_
    rw [cancels_of_mem h hmem]

theorem closed_after (h : Tells past s) {action : Action ι} (hfits : Fits past s action) :
    (action.after s).closed = (action.closes || s.closed) := by
  cases action with
  | schedule job delay period name =>
    unfold Action.after
    dsimp only
    rcases schedule_cases s job delay period name with ⟨refusal, hrefused⟩ | ⟨-, task, wait, -, hscheduled⟩
    · rw [hrefused]
      rfl
    · rw [hscheduled]
      rfl
  | fire id =>
    obtain ⟨-, -, hclosed, -⟩ := fire_cases h hfits
    exact hclosed
  | take id => exact (handedOver_take s id).2
  | fail id | cancel id | drop id | wait time => rfl
  | cancelById id =>
    rw [Action.after, cancelById_eq h id]
    rfl
  | cancelAll =>
    rw [Action.after, cancelAll_eq h.nodup]
    rfl
  | shutdown =>
    rw [Action.after, shutdown_eq h]
    rfl

/-- What a step does to the runs that were handed over: a timer that fires adds one, for a task that is
registered; a run that is taken or given up is no longer there. -/
theorem handedOver_after (h : Tells past s) {action : Action ι} (hfits : Fits past s action) :
    match action with
    | .fire id => (action.after s).handedOver = s.handedOver ∨
        (action.after s).handedOver = s.handedOver ++ [id] ∧
          ∃ task ∈ s.tasks, task.id = id ∧ task.registered = true
    | .take id | .drop id => (action.after s).handedOver = s.handedOver.erase id
    | _ => (action.after s).handedOver = s.handedOver := by
  cases action with
  | schedule job delay period name =>
    unfold Action.after
    dsimp only
    rcases schedule_cases s job delay period name with ⟨refusal, hrefused⟩ | ⟨-, task, wait, -, hscheduled⟩
    · rw [hrefused]
    · rw [hscheduled]
      rfl
  | fire id =>
    obtain ⟨-, -, -, hhanded⟩ := fire_cases h hfits
    exact hhanded
  | take id => exact (handedOver_take s id).1
  | fail id | cancel id | drop id | wait time => rfl
  | cancelById id => rw [Action.after, cancelById_eq h id]
  | cancelAll => rw [Action.after, cancelAll_eq h.nodup]
  | shutdown => rw [Action.after, shutdown_eq h]

/-- Each start uses up a run that was handed over, and each timer that fires hands over at most one. -/
theorem load_after (h : Tells past s) {action : Action ι} (hfits : Fits past s action)
    (hmem : task ∈ s.tasks) :
    (action.starts s task.id).toNat + (action.after s).handedOver.count task.id ≤
      s.handedOver.count task.id + (action.fires task.id && task.registered).toNat := by
  have hhanded := handedOver_after h hfits
  cases action with
  | fire id =>
    rcases hhanded with hsame | ⟨hmore, other, hother, hid, hregistered⟩
    · rw [hsame]
      simp [Action.starts]
    · rw [hmore, List.count_append]
      by_cases heq : task.id = id
      · have hsame : task = other := List.inj_on_of_nodup_map h.nodup hmem hother (heq.trans hid.symm)
        simp [Action.starts, Action.fires, hsame, hid, hregistered]
      · simp [Action.starts, Ne.symm heq]
  | take id =>
    rw [hhanded, starts_take, List.count_erase]
    by_cases heq : id = task.id
    · have hpos : 0 < s.handedOver.count id := List.count_pos_iff.2 hfits
      have hle := Bool.toNat_le ((s.task? id).any fun task => !task.cancelled)
      subst heq
      simp only [beq_self_eq_true, Bool.true_and, if_true]
      omega
    · have hne : (id == task.id) = false := beq_eq_false_iff_ne.2 heq
      simp [hne]
  | drop id =>
    rw [hhanded]
    have hle : (s.handedOver.erase id).count task.id ≤ s.handedOver.count task.id :=
      List.erase_sublist.count_le _
    simp only [Action.starts, Bool.toNat_false]
    omega
  | _ =>
    rw [hhanded]
    simp [Action.starts]

/-! ## What the past says after one more step -/

theorem fired_cons (action : Action ι) (id : Nat) :
    fired ((s, action) :: past) id = (action.fires id || fired past id) := rfl

theorem cancelled_cons (action : Action ι) (id : Nat) :
    cancelled ((s, action) :: past) id = (action.cancels s id || cancelled past id) := rfl

theorem starts_cons (action : Action ι) (id : Nat) :
    starts ((s, action) :: past) id = starts past id + (action.starts s id).toNat := by
  unfold starts
  rw [List.countP_cons]
  cases action.starts s id <;> rfl

theorem cancelled_effect (timer : Option (Float × Nat)) (action : Action ι) (task : Task ι) :
    (action.effect s timer task).cancelled = (action.cancels s task.id || task.cancelled) := by
  unfold Action.effect Task.afterFiring
  cases action.cancels s task.id with
  | true => rfl
  | false =>
    rw [if_neg Bool.false_ne_true]
    repeat' split
    all_goals rfl

theorem registered_effect (timer : Option (Float × Nat)) (action : Action ι) (task : Task ι) :
    (action.effect s timer task).registered = (!action.cancels s task.id && task.registered &&
      (task.cancelled || task.repeats || !action.fires task.id)) := by
  unfold Action.effect Task.afterFiring
  cases action.cancels s task.id with
  | true => rfl
  | false =>
    cases action.fires task.id with
    | true => cases hcancelled : task.cancelled <;> cases hrepeats : task.repeats <;> simp
    | false =>
      rw [if_neg Bool.false_ne_true, if_neg Bool.false_ne_true]
      split <;> simp

theorem runs_effect (h : Tells past s) (hmem : task ∈ s.tasks) (timer : Option (Float × Nat))
    (action : Action ι) :
    (action.effect s timer task).runs = task.runs + (action.starts s task.id).toNat := by
  unfold Action.effect Task.afterFiring
  cases action with
  | take id =>
    rw [cancels_of_mem h hmem]
    cases (Action.take id).starts s task.id <;> simp [Action.fires]
  | _ =>
    simp only [Action.starts, Bool.toNat_false, Bool.false_eq_true, if_false]
    repeat' split
    all_goals rfl

theorem timer_effect {timer : Option (Float × Nat)} {action : Action ι}
    (htimer : (action.effect s timer task).timer.isSome = true) :
    action.cancels s task.id = false ∧ (action.fires task.id = false → task.timer.isSome = true) ∧
      (action.fires task.id = true → task.cancelled = false ∧ task.repeats = true) := by
  unfold Action.effect Task.afterFiring at htimer
  cases hcancels : action.cancels s task.id with
  | true => simp [hcancels, Task.stop] at htimer
  | false =>
    cases hfires : action.fires task.id with
    | true =>
      cases hcancelled : task.cancelled <;> cases hrepeats : task.repeats <;>
        simp [hcancels, hfires, hcancelled, hrepeats] at htimer ⊢
    | false =>
      cases hstarts : action.starts s task.id <;> simpa [hcancels, hfires, hstarts] using htimer

theorem unknown_after (h : Tells past s) {action : Action ι} (hfits : Fits past s action)
    (hnone : s.task? id = none) :
    action.cancels s id = false ∧ action.fires id = false ∧ action.starts s id = false ∧
      id ∉ (action.after s).handedOver := by
  obtain ⟨-, -, -, hnot⟩ := h.unknown id hnone
  have hhanded := handedOver_after h hfits
  refine ⟨by simp [Action.cancels, hnone], ?_⟩
  cases action with
  | fire other =>
    have hne : other ≠ id := by
      rintro rfl
      have hthere : ((s.task? other).any fun task => task.timer.isSome || task.cancelled) = true := hfits
      rw [hnone] at hthere
      cases hthere
    refine ⟨beq_eq_false_iff_ne.2 hne, rfl, ?_⟩
    rcases hhanded with hsame | ⟨hmore, -⟩
    · rwa [hsame]
    · rw [hmore, List.mem_append, List.mem_singleton]
      rintro (hmem | heq)
      · exact hnot hmem
      · exact hne heq.symm
  | take other =>
    have hne : other ≠ id := by
      rintro rfl
      exact hnot hfits
    refine ⟨rfl, ?_, fun hmem => hnot (List.mem_of_mem_erase (hhanded ▸ hmem))⟩
    rw [starts_take, beq_eq_false_iff_ne.2 hne, Bool.false_and]
  | drop other => exact ⟨rfl, rfl, fun hmem => hnot (List.mem_of_mem_erase (hhanded ▸ hmem))⟩
  | _ => exact ⟨rfl, rfl, hhanded ▸ hnot⟩

/-! ## Tasks go with the past -/

theorem TellsOf.step (h : Tells past s) {action : Action ι} (hfits : Fits past s action)
    (hmem : task ∈ s.tasks) (timer : Option (Float × Nat)) :
    TellsOf ((s, action) :: past) (action.after s) (action.effect s timer task) := by
  have htold := h.tasks task hmem
  have hregistered := htold.registered
  refine ⟨?_, ?_, ?_, ?_, ?_⟩
  · rw [id_effect, cancelled_effect, cancelled_cons, htold.cancelled]
  · rw [registered_effect, cancelled_effect, repeats_effect, id_effect, fired_cons, hregistered]
    cases action.cancels s task.id <;> cases task.cancelled <;> cases task.repeats <;>
      cases action.fires task.id <;> cases fired past task.id <;> rfl
  · rw [id_effect, runs_effect h hmem, starts_cons, htold.runs]
  · intro htimer
    obtain ⟨hcancels, hkept, hagain⟩ := timer_effect htimer
    rw [registered_effect, hcancels]
    cases hfires : action.fires task.id with
    | true =>
      obtain ⟨hcancelled, hrepeats⟩ := hagain hfires
      simp [hregistered, hcancelled, hrepeats]
    | false => simp [htold.timer (hkept hfires)]
  · rw [repeats_effect, id_effect, starts_cons, fired_cons]
    intro honce
    have hload := load_after h hfits hmem
    have hold := htold.once honce
    -- a timer that fires for the first time hands over the only run
    have hfirst : (action.fires task.id && task.registered).toNat + (fired past task.id).toNat ≤
        (action.fires task.id || fired past task.id).toNat := by
      rw [hregistered, honce]
      cases action.fires task.id <;> cases fired past task.id <;> cases task.cancelled <;> decide
    omega

theorem TellsOf.fresh (h : Tells past s) {action : Action ι} (hfits : Fits past s action)
    (hnone : s.task? id = none) (hfresh : Fresh id task) :
    TellsOf ((s, action) :: past) (action.after s) task := by
  obtain ⟨hcancelled, hfired, hstarts, -⟩ := h.unknown id hnone
  obtain ⟨hcancels, hfires, hstarts', hnot⟩ := unknown_after h hfits hnone
  have hid := hfresh.id
  subst hid
  refine ⟨?_, ?_, ?_, fun _ => hfresh.registered, fun _ => ?_⟩
  · rw [hfresh.cancelled, cancelled_cons, hcancels, hcancelled]
    rfl
  · rw [hfresh.registered, hfresh.cancelled, fired_cons, hfires, hfired]
    simp
  · rw [hfresh.runs, starts_cons, hstarts, hstarts']
    rfl
  · rw [starts_cons, hstarts, hstarts', List.count_eq_zero.2 hnot]
    exact Nat.zero_le _

theorem Tells.step (h : Tells past s) {action : Action ι} (hfits : Fits past s action) :
    Tells ((s, action) :: past) (action.after s) := by
  obtain ⟨timer, new, htasks, hnew⟩ := tasks_after h hfits
  have hold : ∀ id, (action.after s).task? id = none → s.task? id = none := by
    intro id hnone
    refine task?_eq_none.2 fun task hmem hid => task?_eq_none.1 hnone (action.effect s timer task) ?_ ?_
    · rw [htasks]
      exact List.mem_append_left _ (List.mem_map_of_mem hmem)
    · rwa [id_effect]
  have hids : (s.tasks.map (action.effect s timer)).map (·.id) = s.tasks.map (·.id) := by
    rw [List.map_map]
    exact List.map_congr_left fun task _ => id_effect s timer action task
  refine ⟨?_, ?_, ?_, ?_, ?_⟩
  · rw [htasks, List.map_append, hids, h.ids, List.length_append, List.length_map]
    rcases hnew with rfl | ⟨-, -, task, rfl, hfresh⟩
    · simp
    · simp [List.range_succ, hfresh.id]
  · rw [htasks]
    intro task hmem
    rcases List.mem_append.1 hmem with hmem | hmem
    · obtain ⟨before, hbefore, rfl⟩ := List.mem_map.1 hmem
      exact TellsOf.step h hfits hbefore timer
    · rcases hnew with rfl | ⟨-, -, first, rfl, hfresh⟩
      · cases hmem
      · rw [List.mem_singleton.1 hmem]
        refine TellsOf.fresh h hfits ?_ hfresh
        refine task?_eq_none.2 fun other hother hid => ?_
        have := h.id_le hother
        omega
  · intro id hnone
    obtain ⟨hcancelled, hfired, hstarts, -⟩ := h.unknown id (hold id hnone)
    obtain ⟨hcancels, hfires, hstarts', hnot⟩ := unknown_after h hfits (hold id hnone)
    rw [cancelled_cons, fired_cons, starts_cons, hcancelled, hfired, hstarts, hcancels, hfires, hstarts']
    exact ⟨rfl, rfl, rfl, hnot⟩
  · rw [closed_after h hfits, h.closed]
    rfl
  · rw [closed_after h hfits, htasks]
    intro hclosed task hmem
    -- no task is new, and none is registered again
    obtain rfl : new = [] := by
      refine hnew.resolve_right ?_
      rintro ⟨hopen, hcloses, -⟩
      rw [hopen, hcloses] at hclosed
      cases hclosed
    rw [List.append_nil] at hmem
    obtain ⟨before, hbefore, rfl⟩ := List.mem_map.1 hmem
    rw [registered_effect]
    rcases Bool.or_eq_true_iff.1 hclosed with hcloses | hclosed
    · cases action with
      | shutdown =>
        rw [cancels_of_mem h hbefore]
        simp
      | _ => cases hcloses
    · rw [h.done hclosed before hbefore]
      simp

theorem Past.tells (h : Past past s) : Tells past s := by
  induction h with
  | start time => exact ⟨rfl, nofun, fun _ _ => ⟨rfl, rfl, rfl, nofun⟩, rfl, nofun⟩
  | step _ action hfits ih => exact ih.step hfits

theorem starts_of_cancelled (h : Tells past s) (hcancelled : cancelled past id = true) (action : Action ι) :
    action.starts s id = false := by
  cases action with
  | take other =>
    rw [starts_take]
    by_cases hother : other = id
    · subst hother
      cases htask : s.task? other with
      | none => simp
      | some task =>
        obtain ⟨hmem, rfl⟩ := (task?_eq_some h).1 htask
        simp [(h.tasks task hmem).cancelled, hcancelled]
    · rw [beq_eq_false_iff_ne.2 hother, Bool.false_and]
  | _ => rfl

theorem Past.no_start_after_cancel (h : Past past s) (id : Nat) :
    past.Pairwise fun later earlier =>
      earlier.2.cancels earlier.1 id = true → later.2.starts later.1 id = false := by
  induction h with
  | start time => exact .nil
  | step hpast action hfits ih =>
    refine List.pairwise_cons.2 ⟨fun earlier hearlier hcancels => ?_, ih⟩
    exact starts_of_cancelled hpast.tells (List.any_eq_true.2 ⟨earlier, hearlier, hcancels⟩) action

theorem Past.cancels_of_fail (h : Past past s) {earlier : Scheduler ι}
    (hfail : (earlier, .fail id) ∈ past) : Action.cancels earlier id (.fail id) = true := by
  induction h with
  | start time => cases hfail
  | step hpast action hfits ih =>
    rcases List.mem_cons.1 hfail with heq | hfail
    · cases heq
      -- the job was started, so the task is there
      have hsome : earlier.task? id ≠ none := by
        intro hnone
        obtain ⟨-, -, hstarts, -⟩ := hpast.tells.unknown id hnone
        have hpos : 0 < starts _ id := hfits
        rw [hstarts] at hpos
        exact Nat.lt_irrefl 0 hpos
      obtain ⟨task, htask⟩ := Option.ne_none_iff_exists'.1 hsome
      simp [Action.cancels, htask]
    · exact ih hfail

/-- A worker that runs the first job that was handed over takes steps: it takes the run, and where the job
fails, the failure is the next step. -/
theorem Past.runNext {σ ε : Type} (h : Past past s) (work : σ → ι → σ × Except ε Unit) (state : σ) :
    ∃ steps, Past (steps ++ past) (s.runNext work state).1 ∧
      ∀ entry ∈ steps, (∃ id, entry.2 = .take id) ∨ ∃ id, entry.2 = .fail id := by
  cases hhanded : s.handedOver with
  | nil =>
    have hnone : s.start = (s, none) := by
      unfold Scheduler.start
      rw [hhanded]
    refine ⟨[], ?_, nofun⟩
    unfold Scheduler.runNext
    rw [hnone]
    exact h
  | cons id rest =>
    have hbring : s.bring id = s := by
      unfold bring
      rw [hhanded, List.erase_cons_head, ← hhanded]
    have hmem : id ∈ s.handedOver := by
      rw [hhanded]
      exact List.mem_cons_self
    have htake := h.step (.take id) hmem
    have hafter : (Action.take id).after s = s.start.1 := by
      unfold Action.after
      dsimp only
      rw [hbring]
    rw [hafter] at htake
    unfold Scheduler.runNext
    cases hstart : s.start with
    | mk s' run =>
      rw [hstart] at htake
      rcases run with _ | ⟨other, job⟩
      · exact ⟨[(s, .take id)], htake, by simp⟩
      · have hstarts : (Action.take id).starts s other = true := by
          unfold Action.starts
          dsimp only
          rw [hbring, hstart]
          simp
        dsimp only
        cases hwork : work state job with
        | mk state' ended =>
          cases ended with
          | ok _ => exact ⟨[(s, .take id)], htake, by simp⟩
          | error _ =>
            refine ⟨[(s', .fail other), (s, .take id)], htake.step (.fail other) ?_, by simp⟩
            show 0 < starts _ other
            rw [starts_cons, hstarts]
            exact Nat.succ_pos _

theorem schedule_closed (hclosed : s.closed = true) {period : Option Number}
    (hperiod : ∀ p, period = some p → p.le (.int 0) = false) (job : ι) (delay : Number)
    (name : Option String) : s.schedule job delay period name = .error .closed := by
  unfold schedule
  split
  · rename_i p hfilter
    obtain ⟨hsome, hnot⟩ := Option.filter_eq_some_iff.1 hfilter
    have hle : (!!p.le (.int 0)) = true := hnot
    rw [hperiod p hsome] at hle
    cases hle
  · exact if_pos hclosed

/-- At any time a task is registered exactly if it was not cancelled and repeats or its timer has not fired
yet; its runs are its starts, at most one if it does not repeat, and none of them comes after a cancel, of
which its failure is one. After a shutdown no task is registered and no work is taken. -/
theorem task_life (h : Past past s) :
    (∀ task ∈ s.tasks,
      task.cancelled = cancelled past task.id ∧
      task.registered = (!cancelled past task.id && (task.repeats || !fired past task.id)) ∧
      task.runs = starts past task.id ∧ (task.repeats = false → starts past task.id ≤ 1)) ∧
    s.active =
      s.tasks.countP (fun task => !cancelled past task.id && (task.repeats || !fired past task.id)) ∧
    (∀ id, past.Pairwise fun later earlier =>
      earlier.2.cancels earlier.1 id = true → later.2.starts later.1 id = false) ∧
    (∀ earlier id, (earlier, .fail id) ∈ past →
      Action.cancels earlier id (.fail id) = true ∧ cancelled past id = true) ∧
    (past.any (fun entry => entry.2.closes) = true →
      (∀ task ∈ s.tasks, task.registered = false) ∧ s.active = 0 ∧ s.accept = .error .closed ∧
      ∀ job delay period name, (∀ p, period = some p → p.le (.int 0) = false) →
        s.schedule job delay period name = .error .closed ∧
        (Action.schedule job delay period name).after s = s) := by
  have htells := h.tells
  have hregistered : ∀ task ∈ s.tasks, task.registered =
      (!cancelled past task.id && (task.repeats || !fired past task.id)) := by
    intro task hmem
    rw [(htells.tasks task hmem).registered, (htells.tasks task hmem).cancelled]
  refine ⟨fun task hmem => ?_, ?_, h.no_start_after_cancel, fun earlier id hfail => ?_, fun hclosed => ?_⟩
  · have htold := htells.tasks task hmem
    refine ⟨htold.cancelled, hregistered task hmem, htold.runs, fun honce => ?_⟩
    have hload := htold.once honce
    have hfired := Bool.toNat_le (fired past task.id)
    omega
  · unfold active
    rw [← List.countP_eq_length_filter]
    exact List.countP_congr fun task hmem => by rw [hregistered task hmem]
  · have hcancels := h.cancels_of_fail hfail
    exact ⟨hcancels, List.any_eq_true.2 ⟨_, hfail, hcancels⟩⟩
  · have hclosed : s.closed = true := htells.closed.trans hclosed
    have hnone := htells.done hclosed
    refine ⟨hnone, ?_, if_pos hclosed, fun job delay period name hperiod => ?_⟩
    · unfold active
      rw [List.length_eq_zero_iff, List.filter_eq_nil_iff]
      intro task hmem
      simp [hnone task hmem]
    · have hrefused := schedule_closed hclosed hperiod job delay name
      refine ⟨hrefused, ?_⟩
      unfold Action.after
      dsimp only
      rw [hrefused]

/-- A task that repeats fails while another of its runs is handed over, which is then not started. -/
theorem task_life_of_failure :
    ∃ (past : List (Scheduler Unit × Action Unit)) (s : Scheduler Unit), Past past s ∧
      cancelled past 1 = true ∧ s.tasks.map (·.runs) = [1, 1] ∧ starts past 1 = 1 ∧ s.active = 0 ∧
      s.accept = .error .closed := by
  have hstart : Past [] ({ now := 0.0 } : Scheduler Unit) := .start 0.0
  have hpast := hstart.step (.schedule () (.int 1) (some (.int 1)) none) trivial
    |>.step (.schedule () (.int 0) none none) trivial
    |>.step (.fire 2) (by decide +kernel)
    |>.step (.fire 1) (by decide +kernel)
    |>.step (.take 1) (by decide +kernel)
    |>.step (.fire 1) (by decide +kernel)
    |>.step (.fail 1) (by decide +kernel)
    |>.step (.take 1) (by decide +kernel)
    |>.step (.take 2) (by decide +kernel)
    |>.step .shutdown trivial
  obtain ⟨-, -, -, hfail, hclosed⟩ := task_life hpast
  obtain ⟨-, hactive, haccept, -⟩ := hclosed (by decide +kernel)
  have hcancelled := (hfail _ 1 (.tail _ (.tail _ (.tail _ (.head _))))).2
  refine ⟨_, _, hpast, hcancelled, ?_, ?_, hactive, haccept⟩
  · decide +kernel
  · decide +kernel

end

end Scheduler

end EventScript
