import EventScript.Proofs.FloatSums
import EventScript.Proofs.HostEffects

/-!
The deadline of an invocation.

An invocation has a time budget. Only calls to the host take time, and none of them turns the clock back, so
the deadline that comes of the budget is not before the start. Blocks look at the clock before every
statement; a function is called right after its arguments are read, which takes no time. So every statement
starts by the deadline. A block that comes to a statement after it ends with an error, and nothing that is
pending goes on after that.

Main definitions:
* `Host.GoesForward`, `World.Onward`: a clock that does not go back;
* `State.InTime`: no statement is about to start after the deadline;
* `State.Late`: a block has come to a statement after the deadline.

Main facts:
* `onward_of_reaches`: the clock does not go back in a run of the machine;
* `inTime_step`, `inTime_of_reaches`: statements start by the deadline;
* `timeout_of_reaches`, `ends_of_late`: what is left after the deadline;
* `no_start_after_deadline`: invocations.
-/

namespace EventScript

set_option autoImplicit false

open Statement

/-! ## The clock -/

/-- No call turns the clock back. -/
def Host.GoesForward (host : Host) : Prop :=
  ∀ before call seconds, host.cost before call = some seconds → 0.0 ≤ seconds

/-- From some time on the clock does not go back. -/
def World.Onward (since : Float) (w w' : World) : Prop := since ≤ w.clock → w.clock ≤ w'.clock

namespace World.Onward

variable {since : Float} {a b c : World}

theorem of_eq (h : b.clock = a.clock) : a.Onward since b := by
  intro hsince
  rw [h]
  exact FloatOrder.le_refl (FloatOrder.le_iff.1 hsince).2.1

theorem trans (hab : a.Onward since b) (hbc : b.Onward since c) : a.Onward since c := fun hsince =>
  FloatOrder.le_trans (hab hsince) (hbc (FloatOrder.le_trans hsince (hab hsince)))

end World.Onward

namespace Run

variable {α β : Type} {host : Host} {since : Float}

theorem onward_access {a : Access α} (h : a.Leaves Memory.clock) :
    Keeps host (World.Onward since) (access a) := fun w => .of_eq (h w.memory)

theorem onward_call (hsince : since.isFinite = true) (hhost : host.GoesForward) (call : HostCall) :
    Keeps host (World.Onward since) (Run.call call) := by
  intro w
  rw [result_call]
  simp only [World.serve]
  cases hcost : host.cost w.journal call with
  | none => exact .of_eq rfl
  | some seconds => exact fun hw => FloatOrder.le_add hsince hw (hhost w.journal call seconds hcost)

theorem onward_bind {run : Run α} {next : α → Run β} (h : Keeps host (World.Onward since) run)
    (hnext : ∀ a, Keeps host (World.Onward since) (next a)) :
    Keeps host (World.Onward since) (run >>= next) := by
  intro w
  have hrun := h w
  rw [result_bind]
  cases (result host run w).2 with
  | ok a => exact hrun.trans (hnext a _)
  | error fault => exact hrun

theorem onward_plainly {run : Run Outcome} (h : Keeps host (World.Onward since) run) :
    Keeps host (World.Onward since) (plainly run) := onward_bind h fun _ _ => .of_eq rfl

theorem onward_evaluated {a : Access α} (h : a.Leaves Memory.clock) (f : α → Outcome) :
    Keeps host (World.Onward since) (plainly (access a >>= fun x => pure (f x))) :=
  onward_plainly (onward_bind (onward_access h) fun _ _ => .of_eq rfl)

section

variable (hsince : since.isFinite = true) (hhost : host.GoesForward)

include hsince hhost

theorem onward_asks {run : Run α} (h : Asks run) : Keeps host (World.Onward since) run := by
  induction h with
  | pure a => exact fun w => .of_eq rfl
  | throw fault => exact fun w => .of_eq rfl
  | looked _ _ ihnext => exact fun w => ihnext w w
  | read ctx reference => exact onward_access (Access.leaves_read Memory.beside_clock ctx reference)
  | rendered ctx text => exact onward_access (Access.leaves_render Memory.beside_clock ctx text)
  | renderedAll ctx texts =>
    exact onward_access (Access.leaves_mapM (Access.leaves_render Memory.beside_clock ctx) texts)
  | called call => exact onward_call hsince hhost call
  | tested ctx condition => exact fun w => .of_eq rfl
  | bind _ _ ih ihnext => exact onward_bind ih ihnext

theorem onward_plainRun (env : Invocation) {clause : Clause} (h : clause.isPlain = true) (source : String)
    (ctx : Nat) : Keeps host (World.Onward since) (plainRun env clause source ctx) := by
  have hasks : ∀ {run : Run Outcome}, Asks run → Keeps host (World.Onward since) (plainly run) :=
    fun hrun => onward_plainly (onward_asks hsince hhost hrun)
  have hevaluate := Access.leaves_evaluate Memory.beside_clock ctx
  cases clause with
  | condition | otherwise | event | command | function | loop | call => cases h
  | variableSet reference value =>
    exact onward_plainly (onward_bind (onward_access (hevaluate value)) fun v => onward_bind
      (onward_access (Access.leaves_assign Memory.beside_clock ctx reference v)) fun _ _ => .of_eq rfl)
  | variableAdd reference value =>
    exact onward_plainly (onward_bind (onward_access (hevaluate value)) fun v => onward_bind
      (onward_access (Access.leaves_increase Memory.beside_clock ctx reference v)) fun _ _ => .of_eq rfl)
  | variableDelete reference =>
    exact onward_evaluated (Access.leaves_remove Memory.beside_clock ctx reference) _
  | sendMessage message target => exact hasks (asks_sendMessage ctx message target)
  | broadcast message => exact hasks (asks_broadcast ctx message)
  | giveItem target amount item => exact hasks (asks_giveItem ctx target amount item)
  | teleport target location => exact hasks (asks_teleport ctx target location)
  | animate animation parameters => exact hasks (asks_animate ctx animation parameters)
  | action => exact onward_evaluated (Access.leaves_render Memory.beside_clock ctx source) _
  | returnValue value =>
    cases value with
    | none => exact hasks (.pure _)
    | some value => exact onward_evaluated (hevaluate value) _
  | breakLoop | continueLoop => exact hasks (.pure _)
  | cancelEvent => exact fun w => .of_eq rfl

end

end Run

theorem Config.zero_le_maxExecutionTime {config : Config} {budget : Float}
    (h : config.maxExecutionTime? = some budget) (hms : 0 ≤ config.maxExecutionTimeMs) : 0.0 ≤ budget := by
  unfold maxExecutionTime? at h
  dsimp only at h
  rw [decide_eq_false (by omega)] at h
  unfold Number.finite? at h
  split at h
  · cases h
    exact FloatOrder.zero_le_nearest _ _
  · cases h

/-! ## Events -/

/-- A statement starts by the deadline, if the event is the start of one. -/
def Event.InTime (deadline : Float) : Event → Prop
  | started _ _ _ time => time ≤ deadline
  | _ => True

theorem Event.inTime_of_not_isStart {deadline : Float} {event : Event} (h : event.isStart = false) :
    event.InTime deadline := by
  cases event with
  | started => cases h
  | _ => trivial

/-- A statement ends with an outcome. -/
def Event.EndsWith (script : Nat) (outcome : Outcome) (event : Event) : Prop :=
  ∃ node ctx, event = .ended script node ctx outcome

namespace Machine

open Run

section

variable {host : Host} {env : Invocation} {rules : Rules env} {since : Float} {s t : State}

theorem moves_onward (hsince : since.isFinite = true) (hhost : host.GoesForward) :
    Moves host rules (World.Onward since) where
  refl _ := .of_eq rfl
  trans := .trans
  started _ _ _ _ _ := .of_eq rfl
  ended _ _ _ _ _ _ _ := .of_eq rfl
  timedOut _ _ _ := .of_eq rfl
  tested ctx _ _ := onward_asks hsince hhost (asks_takes ctx _)
  header h := onward_asks hsince hhost (asks_passesOf h)
  pass n h := onward_asks hsince hhost (h.asks n)
  arguments ctx arguments :=
    onward_access (Access.leaves_mapM (Access.leaves_evaluate Memory.beside_clock ctx) arguments)
  entersLoop _ _ := .of_eq rfl
  exitsLoop _ _ := .of_eq rfl
  bound _ _ _ := .of_eq rfl
  entered _ _ _ _ := .of_eq rfl
  left w caller child := by
    refine .of_eq ?_
    unfold leaveFunction
    split <;> rfl

theorem onward_of_reaches (hsince : since.isFinite = true) (hhost : host.GoesForward)
    (h : s.Obeys rules host) (hreaches : Reaches host env s t) : s.world.Onward since t.world :=
  moves_of_reaches (moves_onward hsince hhost)
    (fun _ _ ctx _ hplain => onward_plainRun hsince hhost env hplain _ ctx) h hreaches

/-! ## Statements in time -/

/-- A task that a statement starts with: the statement, what it does inside, or a call of its function. -/
def Task.startsStatement (task : Task) : Bool := task.isStatement || task.isInside || task.isCall

/-- No statement starts after the deadline. -/
def State.InTime (env : Invocation) (s : State) : Prop :=
  ∀ task, s.control = .run task → task.startsStatement = true → s.world.clock ≤ env.deadline

/-- What follows the first move of a task. -/
def Move.task? : Move → Option Task
  | next (.run task) => some task
  | next (.give _) => none
  | push _ _ _ task => some task

theorem task?_beginBranch {calls ctx : Nat} {test : Option String} {body : List (Nat × Statement)} {w : World}
    {inner : Task} (h : (beginBranch host calls ctx test body w).2.task? = some inner) :
    inner = .block false none body := by
  unfold beginBranch at h
  split at h <;> cases h
  rfl

theorem task?_beginLoop {calls ctx : Nat} {source : LoopSource} {argument : String}
    {body : List (Nat × Statement)} {w : World} {inner : Task}
    (h : (beginLoop host calls ctx source argument body w).2.task? = some inner) :
    ∃ each, inner = .passes each body 0 := by
  unfold beginLoop at h
  split at h
  · cases h
  · split at h <;> cases h
    exact ⟨_, rfl⟩

theorem task?_beginPasses {calls ctx n : Nat} {each : Passes} {body : List (Nat × Statement)} {w : World}
    {inner : Task} (h : (beginPasses host env calls ctx each body n w).2.task? = some inner) :
    inner = .block false none body := by
  unfold beginPasses at h
  split at h
  · cases h
  · split at h <;> cases h
    rfl
  · cases h

theorem clock_beginCall (ctx : Nat) (name : String) (arguments : List String) (w : World) :
    (beginCall host env ctx name arguments w).1.clock = w.clock := by
  have hkept := Access.leaves_mapM (Access.leaves_evaluate Memory.beside_clock ctx) arguments w.memory
  have hclock : (result host (Run.access (arguments.mapM (evaluate ctx))) w).1.clock = w.clock := hkept
  unfold beginCall
  split
  · rcases hresult : result host (Run.access (arguments.mapM (evaluate ctx))) w with ⟨w', fault | values⟩ <;>
      rwa [hresult] at hclock
  · rfl

/-- Of what a statement does at once, only a call of a function leads to a start without a block before it,
and it takes no time. -/
theorem clock_beginInside {calls ctx node : Nat} {u : Statement} {w : World} {inner : Task}
    (hinner : (beginInside host env calls ctx node u w).2.task? = some inner)
    (hstarts : inner.startsStatement = true) :
    (beginInside host env calls ctx node u w).1.clock = w.clock := by
  unfold beginInside at hinner ⊢
  cases hclause : u.clause with
  | condition test | otherwise test =>
    simp only [hclause] at hinner
    obtain rfl := task?_beginBranch hinner
    cases hstarts
  | event | command | function =>
    simp only [hclause] at hinner
    cases hinner
    cases hstarts
  | loop word source argument =>
    simp only [hclause] at hinner
    obtain ⟨each, rfl⟩ := task?_beginLoop hinner
    cases hstarts
  | call name arguments =>
    dsimp only
    exact clock_beginCall ctx name arguments w
  | _ =>
    simp only [hclause] at hinner
    cases hinner

/-- What starts next starts in time: a block has looked at the clock, or a statement has started in time and
calls a function. -/
theorem inTime_begin {calls ctx : Nat} {w : World} (hclock : w.clock.isNaN = false)
    (hdeadline : env.deadline.isNaN = false) {task : Task}
    (h : task.startsStatement = true → w.clock ≤ env.deadline) {inner : Task}
    (hinner : (begin host env calls ctx w task).2.task? = some inner)
    (hstarts : inner.startsStatement = true) :
    (begin host env calls ctx w task).1.clock ≤ env.deadline := by
  cases task with
  | statement node u => exact h rfl
  | inside node u =>
    have hsame := clock_beginInside hinner hstarts
    show (beginInside host env calls ctx node u w).1.clock ≤ env.deadline
    rw [hsame]
    exact h rfl
  | block whole chain statements =>
    unfold begin beginBlock at hinner ⊢
    cases statements with
    | nil => cases hinner
    | cons first rest =>
      dsimp only at hinner ⊢
      by_cases hlate : env.deadline < w.clock
      · rw [if_pos hlate] at hinner
        cases hinner
      · have hintime : w.clock ≤ env.deadline := by
          by_contra hnot
          exact hlate (FloatOrder.lt_of_not_le hclock hdeadline hnot)
        rw [if_neg hlate]
        split <;> exact hintime
  | passes each body n =>
    obtain rfl := task?_beginPasses hinner
    cases hstarts
  | call name values =>
    show (beginFunction env calls ctx name values w).1.clock ≤ _
    rcases beginFunction_cases env calls ctx name values with ⟨outcome, hfails⟩ | ⟨node, function, henters⟩
    · rw [hfails]
      exact h rfl
    · rw [henters]
      exact h rfl

theorem inTime_step (hclock : s.world.clock.isNaN = false) (hdeadline : env.deadline.isNaN = false)
    (h : s.InTime env) (hstep : step host env s = some t) : t.InTime env := by
  rcases step_cases hstep with ⟨task, hcontrol, hmove⟩ | ⟨ended, pending, stack, hcontrol, hstack, rfl⟩
  · have hnext : ∀ inner, (begin host env s.calls s.ctx s.world task).2.task? = some inner →
        inner.startsStatement = true →
        (begin host env s.calls s.ctx s.world task).1.clock ≤ env.deadline := fun inner hinner hstarts =>
      inTime_begin hclock hdeadline (h task hcontrol) hinner hstarts
    rcases hbegin : begin host env s.calls s.ctx s.world task with
      ⟨w, (inner | ended) | ⟨pending, calls', ctx', inner⟩⟩
    · rw [hbegin] at hmove hnext
      subst hmove
      rintro task' ⟨⟩ hstarts
      exact hnext _ rfl hstarts
    · rw [hbegin] at hmove
      subst hmove
      rintro task' ⟨⟩
    · rw [hbegin] at hmove hnext
      subst hmove
      rintro task' ⟨⟩ hstarts
      exact hnext _ rfl hstarts
  · -- what is pending goes on with a block or with passes, and a block looks at the clock
    intro task hrun hstarts
    rcases task_of_resume hrun with ⟨_, _, _, rfl⟩ | ⟨_, _, _, rfl⟩ <;> cases hstarts

/-- Statements start by the deadline on the way from a state, whatever they are part of. -/
theorem inTime_of_reaches (hsince : since.isFinite = true) (hhost : host.GoesForward)
    (hdeadline : env.deadline.isNaN = false) (hobeys : s.Obeys rules host) (hclock : since ≤ s.world.clock)
    (h : s.InTime env) (hreaches : Reaches host env s t) :
    s.world.Adds (Event.InTime env.deadline) t.world ∧ t.InTime env := by
  induction hreaches with
  | refl => exact ⟨.of_eq rfl, h⟩
  | tail hbefore hstep ih =>
    rename_i t t'
    obtain ⟨hadds, hintime⟩ := ih
    have hnumber : t.world.clock.isNaN = false :=
      (FloatOrder.le_iff.1 (onward_of_reaches hsince hhost hobeys hbefore hclock)).2.1
    refine ⟨hadds.trans ?_, inTime_step hnumber hdeadline hintime hstep⟩
    rcases starts_step (obeys_of_reaches hobeys hbefore) hstep with ⟨node, u, -, hrun, rfl⟩ | ⟨hstartless, -⟩
    · exact .of_note rfl (hintime _ hrun rfl)
    · exact hstartless.mono fun _ => Event.inTime_of_not_isStart

/-! ## After the deadline -/

/-- A block comes to a statement after the deadline. -/
def State.Late (env : Invocation) (node : Nat) (u : Statement) (s : State) : Prop :=
  (∃ whole chain rest, s.control = .run (.block whole chain ((node, u) :: rest))) ∧
    env.deadline < s.world.clock

theorem step_of_late {node : Nat} {u : Statement} (h : s.Late env node u) :
    step host env s = some { s with
      control := .give (.ok (timeout env u.line, none))
      world := s.world.note (.timedOut env.script node s.ctx) } := by
  obtain ⟨⟨whole, chain, rest, hcontrol⟩, hlate⟩ := h
  unfold step
  rw [hcontrol]
  dsimp only [begin, beginBlock]
  rw [if_pos hlate]
  rfl

/-- The statement that a block comes to after the deadline. -/
def State.late? (env : Invocation) (s : State) : Option (Nat × Statement) :=
  match s.control with
  | .run (.block _ _ (first :: _)) => if env.deadline < s.world.clock then some first else none
  | _ => none

theorem late_of_late? {node : Nat} {u : Statement} (h : s.late? env = some (node, u)) :
    s.Late env node u := by
  unfold State.late? at h
  split at h
  · rename_i whole chain first rest hcontrol
    split at h
    · cases h
      exact ⟨⟨whole, chain, rest, hcontrol⟩, ‹_›⟩
    · cases h
  · cases h

/-- The first statement on the way, within so many steps, that a block comes to after the deadline. -/
def State.firstLate (host : Host) (env : Invocation) : Nat → State → Option (Nat × Statement)
  | 0, s => s.late? env
  | n + 1, s => (s.late? env).or ((step host env s).bind (firstLate host env n))

theorem exists_late_of_firstLate {n : Nat} {node : Nat} {u : Statement}
    (h : s.firstLate host env n = some (node, u)) : ∃ t, Reaches host env s t ∧ t.Late env node u := by
  induction n generalizing s with
  | zero => exact ⟨s, .refl, late_of_late? h⟩
  | succ n ih =>
    unfold State.firstLate at h
    rcases Option.or_eq_some_iff.1 h with hlate | ⟨-, hlater⟩
    · exact ⟨s, .refl, late_of_late? hlate⟩
    · obtain ⟨next, hstep, hfirst⟩ := Option.bind_eq_some_iff.1 hlater
      obtain ⟨t, hreaches, hlate⟩ := ih hfirst
      exact ⟨t, .head hstep hreaches, hlate⟩

/-- Nothing that is pending goes on when the time is up: statements end with that, and that is all. -/
theorem resume_of_timeout (pending : Pending) (ctx : Nat) (w : World) (line : Int) (taken : Option Bool) :
    (∃ taken', (pending.resume env ctx w (.ok (timeout env line, taken))).2 =
        .give (.ok (timeout env line, taken'))) ∧
      w.Adds (Event.EndsWith env.script (timeout env line))
        (pending.resume env ctx w (.ok (timeout env line, taken))).1 := by
  cases pending with
  | closing node _ start => exact ⟨⟨taken, rfl⟩, .of_note rfl ⟨node, ctx, rfl⟩⟩
  | branch => exact ⟨⟨some true, rfl⟩, .of_eq rfl⟩
  | loop | pass => exact ⟨⟨taken, rfl⟩, .of_eq rfl⟩
  | rest whole clause statements => cases whole <;> exact ⟨⟨none, rfl⟩, .of_eq rfl⟩
  | call caller => exact ⟨⟨none, rfl⟩, .of_eq (journal_leaveFunction caller ctx w)⟩

theorem timeout_of_reaches {line : Int} (h : ∃ taken, s.control = .give (.ok (timeout env line, taken)))
    (hreaches : Reaches host env s t) :
    (∃ taken, t.control = .give (.ok (timeout env line, taken))) ∧
      s.world.Adds (Event.EndsWith env.script (timeout env line)) t.world := by
  induction hreaches with
  | refl => exact ⟨h, .of_eq rfl⟩
  | tail _ hstep ih =>
    obtain ⟨⟨taken, hcontrol⟩, hadds⟩ := ih
    rcases step_cases hstep with ⟨task, hrun, -⟩ | ⟨ended, pending, stack, hgive, -, rfl⟩
    · rw [hcontrol] at hrun
      cases hrun
    · rw [hcontrol] at hgive
      cases hgive
      obtain ⟨hgives, hends⟩ := resume_of_timeout pending _ _ line taken
      exact ⟨hgives, hadds.trans hends⟩

/-! ## Errors of scripts -/

theorem sameErrorsFrame : Run.Frame SameErrors where
  refl _ := sameErrors_of_scripts_eq rfl
  trans := .trans
  changeMemory _ _ _ := sameErrors_of_scripts_eq rfl
  accessed _ := sameErrors_of_scripts_eq rfl
  called _ _ := sameErrors_of_scripts_eq rfl
  tested _ _ _ := sameErrors_of_scripts_eq rfl
  cancelled _ _ := sameErrors_of_scripts_eq rfl

theorem moves_sameErrors : Moves host rules SameErrors where
  toTurns := turns_of_frame sameErrorsFrame
    (fun w node _ _ ms _ _ =>
      have hrecorded : SameErrors w (w.changeScript env.script fun s => s.recordStatement node ms) :=
        sameErrors_changeScript w env.script fun _ => rfl
      hrecorded.trans (sameErrors_of_scripts_eq rfl))
    (fun _ _ _ => sameErrors_of_scripts_eq rfl) fun _ _ => sameErrors_of_scripts_eq rfl
  started _ _ _ _ _ := sameErrors_of_scripts_eq rfl

theorem sameErrors_of_reaches (h : s.Obeys rules host) (hreaches : Reaches host env s t) :
    SameErrors s.world t.world :=
  moves_of_reaches moves_sameErrors (fun _ _ ctx _ hplain => sameErrorsFrame.plainRun env hplain _ ctx) h
    hreaches

end

/-! ## Invocations -/

namespace Request

variable {host : Host} {env : Invocation} {config : Config} {script ctx : Nat} {request : Request} {w : World}

/-- From wherever the machine has come to, it goes to the end of the invocation. -/
theorem Served.ended_from (h : request.Served host config script ctx w env) {s : State}
    (hs : Reaches host env (start ctx (request.task (w.script script).statements) w) s) :
    ∃ outcome w', Reaches host env s ⟨0, ctx, .give (.ok (outcome, none)), [], w'⟩ ∧
      result host (request.run config script ctx) w = result host (finish script ctx outcome) w' := by
  obtain ⟨rfl, -, -, outcome, w', final, w'', ⟨hreaches, -⟩, hfinish, hended⟩ := h
  exact ⟨outcome, w', reaches_halted hs hreaches rfl, hended.trans hfinish.symm⟩

end Request

theorem result_finish_timeout (host : Host) (env : Invocation) (ctx : Nat) (line : Int) (w : World) :
    result host (finish env.script ctx (timeout env line)) w =
      (w.changeScript env.script fun s => s.addError
        (errorEntry (some s!"Script execution timeout ({env.config.maxExecutionTimeMs}ms)") (some line)),
        .ok (timeout env line)) := by
  unfold finish
  rw [result_bind_ok (result_look w)]
  rfl

theorem lt_size_of_placed {w : World} {script node : Nat} {u : Statement}
    (h : (walkAll (w.script script).statements)[node]? = some u) : script < w.scripts.size := by
  by_contra hsize
  have hdefault : w.script script = default := Table.get_of_size_le (Nat.not_lt.1 hsize)
  rw [hdefault] at h
  cases h

/-- A block that comes to a statement after the deadline is the end of the invocation. -/
theorem ends_of_late {host : Host} {config : Config} {script ctx : Nat} {request : Request} {w : World}
    {env : Invocation} (hserved : request.Served host config script ctx w env) {s : State}
    (hs : Reaches host env (start ctx (request.task (w.script script).statements) w) s) {node : Nat}
    {u : Statement} (hlate : s.Late env node u) :
    ∃ after, result host (request.run config script ctx) w = (after, .ok (timeout env u.line)) ∧
      (s.world.note (.timedOut script node s.ctx)).Adds (Event.EndsWith script (timeout env u.line)) after ∧
      (after.script script).errors = (w.script script).errors ++
        [errorEntry (some s!"Script execution timeout ({config.maxExecutionTimeMs}ms)") (some u.line)] := by
  obtain ⟨outcome, last, hrest, hended⟩ := hserved.ended_from hs
  obtain ⟨rfl, rfl, hfunctions, -⟩ := hserved
  have hplaced := functionsPlaced env hfunctions
  have hobeys : (start ctx (request.task (w.script env.script).statements) w).Obeys (Rules.inTree hplaced)
      host := obeys_start (request.obeys_inTree hplaced) ctx w
  have hstep : step host env s = some _ := step_of_late hlate
  have hrest' := reaches_halted (.single hstep) hrest rfl
  obtain ⟨⟨taken, hgive⟩, hadds⟩ := timeout_of_reaches ⟨none, rfl⟩ hrest'
  cases hgive
  have herrors : SameErrors w last := sameErrors_of_reaches hobeys (hs.trans hrest)
  have hsize : env.script < w.scripts.size := by
    obtain ⟨⟨whole, chain, rest, hcontrol⟩, -⟩ := hlate
    have hblock := (obeys_of_reaches hobeys hs).control
    rw [hcontrol] at hblock
    exact lt_size_of_placed (hblock (node, u) List.mem_cons_self)
  refine ⟨_, hended.trans (result_finish_timeout host env ctx u.line last), hadds.trans (.of_eq rfl), ?_⟩
  rw [errors_addError (herrors.1 ▸ hsize), herrors.2]

/-- Every statement of an invocation starts by the deadline, whatever block, pass or function it is in. If a
block comes to a statement after it, even to one that would be passed over, the invocation ends with the error
for that, nothing but ends of statements happens any more, and the error is entered in the script with the
line of that statement, if it has one. -/
theorem no_start_after_deadline (host : Host) (config : Config) (script ctx : Nat) (request : Request)
    (w : World) {since : Float} (hsince : since.isFinite = true) (hclock : since ≤ w.clock)
    (hhost : host.GoesForward) (hms : 0 ≤ config.maxExecutionTimeMs) :
    let tree := (w.script script).statements
    let ended := result host (request.run config script ctx) w
    request.Refused host config script ctx w ∨ ∃ budget, config.maxExecutionTime? = some budget ∧
      let env : Invocation := ⟨script, config, (w.script script).functions, w.clock + budget⟩
      request.Served host config script ctx w env ∧
      w.Adds (Event.InTime (w.clock + budget)) ended.1 ∧
      ∀ s node u, Reaches host env (start ctx (request.task tree) w) s → s.Late env node u →
        let text := s!"Script execution timeout ({config.maxExecutionTimeMs}ms)"
        ended.2 = .ok (.error (some text) none (some u.line)) ∧
        (s.world.note (.timedOut script node s.ctx)).Adds
          (Event.EndsWith script (timeout env u.line)) ended.1 ∧
        (ended.1.script script).errors = (w.script script).errors ++
          [if u.line = 0 then text else s!"Line {u.line}: {text}"] := by
  intro tree ended
  rcases request.ends_within host config script ctx w with hrefused | ⟨budget, hbudget, hserved⟩
  · exact .inl hrefused
  refine .inr ⟨budget, hbudget, ?_⟩
  intro env
  have hstart : w.clock ≤ env.deadline :=
    FloatOrder.le_add hsince hclock (Config.zero_le_maxExecutionTime hbudget hms)
  have hplaced := functionsPlaced env rfl
  have hobeys : (start ctx (request.task tree) w).Obeys (Rules.inTree hplaced) host :=
    obeys_start (request.obeys_inTree hplaced) ctx w
  refine ⟨hserved, ?_, fun s node u hs hlate => ?_⟩
  · obtain ⟨outcome, last, after, hreaches, hended, hlast⟩ := hserved.ended
    have hadds := (inTime_of_reaches hsince hhost (FloatOrder.le_iff.1 hstart).2.1 hobeys hclock
      (fun _ _ _ => hstart) hreaches).1
    have hafter : ended.1 = after := congrArg Prod.fst hended
    rw [hafter]
    refine hadds.trans (.of_eq ?_)
    rcases hlast with rfl | ⟨message, rfl⟩ <;> rfl
  · obtain ⟨after, hended, hadds, herrors⟩ := ends_of_late hserved hs hlate
    have hafter : ended = (after, .ok (timeout env u.line)) := hended
    rw [hafter]
    exact ⟨rfl, hadds, herrors⟩

/-- A script that broadcasts in a function that a loop calls. -/
def slowScript : Script where
  name := "slow"
  source := "loop 100 times:\n  call f()\nfunction f():\n  broadcast \"a\"\n  broadcast \"b\"\n"
  statements := [
    ⟨.loop .loop .times "100", "loop 100 times:", 1, 0, {}, [⟨.call "f" [], "call f()", 2, 1, {}, []⟩]⟩,
    ⟨.function "f" [], "function f():", 3, 0, {}, [
      ⟨.broadcast "a", "broadcast \"a\"", 4, 1, {}, []⟩,
      ⟨.broadcast "b", "broadcast \"b\"", 5, 1, {}, []⟩]⟩]

theorem goesForward_of_broadcast {cost : Float} (h : 0.0 ≤ cost) :
    (Roster.host { costs := Dict.ofList [("broadcast", cost)] }).GoesForward := by
  intro before call seconds hcost
  cases call <;> cases hcost
  exact h

theorem no_start_after_deadline_of_slow :
    let w : World := { scripts := ⟨#[slowScript]⟩, memory := { contexts := ⟨#[{}]⟩ } }
    let config : Config := { maxExecutionTimeMs := 2500 }
    let host := Roster.host { costs := Dict.ofList [("broadcast", 1.0)] }
    let ended := result host (Run.execute config 0 0 .all) w
    (Float.isFinite 0.0 = true ∧ 0.0 ≤ w.clock ∧ host.GoesForward ∧ 0 ≤ config.maxExecutionTimeMs) ∧
    w.Adds (Event.InTime 2.5) ended.1 ∧ ended.1.journal.calls = ["a", "b", "a"].map .broadcast ∧
    ended.2 = .ok (.error (some "Script execution timeout (2500ms)") none (some 5)) ∧
    (ended.1.script 0).errors = ["Line 5: Script execution timeout (2500ms)"] := by
  intro w config host ended
  have hsince : Float.isFinite 0.0 = true := by decide +kernel
  have hclock : 0.0 ≤ w.clock := by decide +kernel
  have hhost : host.GoesForward := goesForward_of_broadcast (by decide +kernel)
  have hms : 0 ≤ config.maxExecutionTimeMs := by decide
  have hcalls : ended.1.journal.calls = ["a", "b", "a"].map .broadcast := by decide +kernel
  have hbudget : config.maxExecutionTime? = some 2.5 := by decide +kernel
  rcases no_start_after_deadline host config 0 0 (.execute .all) w hsince hclock hhost hms with
    hrefused | ⟨budget, hbudget', hserved, hadds, hends⟩
  · have hsame : ended.1 = w := hrefused.world_eq
    rw [hsame] at hcalls
    cases hcalls
  · obtain rfl : budget = 2.5 := Option.some.inj (hbudget'.symm.trans hbudget)
    have hlate : ((start 0 (Request.task slowScript.statements (.execute .all)) w).firstLate host
        ⟨0, config, slowScript.functions, w.clock + 2.5⟩ 100).map (·.2.line) = some 5 := by decide +kernel
    obtain ⟨⟨node, u⟩, hfirst, hline⟩ := Option.map_eq_some_iff.1 hlate
    obtain ⟨s, hreaches, hs⟩ := exists_late_of_firstLate hfirst
    obtain ⟨hended, -, herrors⟩ := hends s node u hreaches hs
    replace hline : u.line = 5 := hline
    rw [hline] at hended herrors
    have hdeadline : w.clock + 2.5 = 2.5 := by decide +kernel
    rw [hdeadline] at hadds
    exact ⟨⟨hsince, hclock, hhost, hms⟩, hadds, hcalls, hended, herrors⟩

/-- A script of statements without a line in a source. -/
def unnumberedScript : Script where
  name := "unnumbered"
  source := ""
  statements := [⟨.broadcast "a", "", 0, 0, {}, []⟩, ⟨.broadcast "b", "", 0, 0, {}, []⟩]

/-- The error that is entered for a statement without a line names none. -/
theorem timeout_entry_of_unnumbered :
    let w : World := { scripts := ⟨#[unnumberedScript]⟩, memory := { contexts := ⟨#[{}]⟩ } }
    let host := Roster.host { costs := Dict.ofList [("broadcast", 6.0)] }
    let ended := result host (Run.execute {} 0 0 .all) w
    (Float.isFinite 0.0 = true ∧ 0.0 ≤ w.clock ∧ host.GoesForward) ∧
    ∃ budget, ({} : Config).maxExecutionTime? = some budget ∧
      let env : Invocation := ⟨0, {}, unnumberedScript.functions, w.clock + budget⟩
      ∃ s node u, Reaches host env (start 0 (Request.task unnumberedScript.statements (.execute .all)) w) s ∧
        s.Late env node u ∧ (ended.1.script 0).errors = ["Script execution timeout (5000ms)"] ∧
        (ended.1.script 0).errors ≠
          (w.script 0).errors ++ [s!"Line {u.line}: Script execution timeout (5000ms)"] := by
  intro w host ended
  have hhost : host.GoesForward := goesForward_of_broadcast (by decide +kernel)
  have hlate : ((start 0 (Request.task unnumberedScript.statements (.execute .all)) w).firstLate host
      ⟨0, {}, unnumberedScript.functions, w.clock + 5.0⟩ 100).map (·.2.line) = some 0 := by decide +kernel
  obtain ⟨⟨node, u⟩, hfirst, hline⟩ := Option.map_eq_some_iff.1 hlate
  obtain ⟨s, hreaches, hs⟩ := exists_late_of_firstLate hfirst
  refine ⟨⟨by decide +kernel, by decide +kernel, hhost⟩, 5.0, by decide +kernel, s, node, u, hreaches, hs,
    by decide +kernel, ?_⟩
  replace hline : u.line = 0 := hline
  rw [hline]
  decide +kernel

end Machine

end EventScript
