import EventScript.Proofs.RunningStatements

/-!
Steps and the flags of cancelled events.

The machine takes the same steps whatever the flags are. Three of them change flags: a cancel statement sets
the flag of its context, a function starts with the flag of its caller, and the flag that it ends with goes back
to the caller.

Main definitions:
* `World.Blind`: something that neither looks at the flags nor changes them;
* `State.AboutToCancel`: the next step carries out a cancel statement;
* `State.Standing`: what holds of the contexts and of the calls of every state;
* `FlagsMove`: what a step does to the flags.

Main facts:
* `Run.blind_of_asks`: runs that only ask are blind;
* `blind_begin`, `blind_resume`: so are most moves of the machine;
* `flags_step`, `flags_of_reaches`: a step and a run of the machine, with other flags.
-/

namespace EventScript

set_option autoImplicit false

open Statement

/-! ## Blindness -/

/-- Something done to the world that neither looks at the flags nor changes them. -/
def World.Blind {β : Type} (f : World → World × β) : Prop :=
  ∀ (w : World) (flags : Nat → Bool), f (w.withFlags flags) = ((f w).1.withFlags flags, (f w).2)

namespace World

variable {β : Type} (w : World) (flags : Nat → Bool)

theorem blind_same (b : β) : Blind fun w => (w, b) := fun _ _ => rfl

theorem changeContext_withFlags_of_neutral (id : Nat) {f : Context → Context}
    (h : ∀ c b, f { c with cancelled := b } = { f c with cancelled := b }) :
    (w.withFlags flags).changeContext id f = (w.changeContext id f).withFlags flags := by
  exact congrArg (fun memory => ({ w with memory } : World))
    (w.memory.changeContext_withFlags_of_neutral flags id h)

theorem bound_withFlags (ctx : Nat) (bindings : Bindings) :
    (w.withFlags flags).bound ctx bindings = (w.bound ctx bindings).withFlags flags := by
  refine w.changeContext_withFlags_of_neutral flags ctx fun c b => ?_
  induction bindings generalizing c with
  | nil => rfl
  | cons binding rest ih => exact ih (c.setLocal binding.1 binding.2)

theorem withFlags_cancelling (id : Nat) :
    (w.changeContext id fun c => { c with cancelled := true }).withFlags flags = w.withFlags flags :=
  congrArg (fun memory => ({ w with memory } : World))
    (w.memory.withFlags_changeContext flags id fun _ _ => rfl)

theorem cancelling_withFlags (id : Nat) :
    (w.withFlags flags).changeContext id (fun c => { c with cancelled := true }) =
      w.withFlags (Function.update flags id true) := by
  have hset : (w.memory.withFlags flags).changeContext id (fun c => { c with cancelled := true }) =
      (w.memory.changeContext id fun c => { c with cancelled := true }).withFlags
        (Function.update flags id true) :=
    w.memory.changeContext_withFlags (fun other hne => Function.update_of_ne hne true flags)
      fun c => by rw [Function.update_self]
  exact (congrArg (fun memory => ({ w with memory } : World)) hset).trans (w.withFlags_cancelling _ id)

end World

namespace Run

variable {α β : Type} {host : Host}

theorem blind_bind {run : Run α} {next : α → Run β} (h : World.Blind (result host run))
    (hnext : ∀ a, World.Blind (result host (next a))) : World.Blind (result host (run >>= next)) := by
  intro w flags
  rw [result_bind, result_bind, h w flags]
  cases (result host run w).2 with
  | ok a => exact hnext a _ flags
  | error fault => rfl

theorem blind_access {a : Access α} (h : a.Blind) : World.Blind (result host (access a)) := by
  intro w flags
  rw [result_access, result_access]
  show (((w.withFlags flags).note .accessed).changeMemory fun _ => (a.run.run (w.memory.withFlags flags)).2,
    (a.run.run (w.memory.withFlags flags)).1) = _
  rw [h w.memory flags]
  rfl

theorem blind_call (call : HostCall) : World.Blind (result host (Run.call call)) := by
  intro w flags
  rw [result_call, result_call]
  have hjournal : (w.withFlags flags).journal = w.journal := rfl
  unfold World.serve
  rw [hjournal]
  dsimp only
  cases host.cost w.journal call <;> rfl

theorem blind_of_asks {run : Run α} (h : Asks run) : World.Blind (result host run) := by
  induction h with
  | pure | throw | tested => exact fun _ _ => rfl
  | looked hsame _ ihnext =>
    intro w flags
    rw [result_bind_ok (result_look _), result_bind_ok (result_look _), hsame]
    exact ihnext w w flags
  | read ctx reference => exact blind_access (Access.blind_read ctx reference)
  | rendered ctx text => exact blind_access (Access.blind_render ctx text)
  | renderedAll ctx texts => exact blind_access (Access.blind_mapM (Access.blind_render ctx) texts)
  | called call => exact blind_call call
  | bind _ _ ih ihnext => exact blind_bind ih ihnext

theorem blind_plainly {run : Run Outcome} (h : World.Blind (result host run)) :
    World.Blind (result host (plainly run)) := blind_bind h fun _ => World.blind_same _

/-- Of the statements without a block and without a call, only those that cancel have to do with the flags. -/
theorem blind_plainRun (env : Invocation) {clause : Clause} (h : clause.isPlain = true)
    (hcancel : clause ≠ .cancelEvent) (source : String) (ctx : Nat) :
    World.Blind (result host (plainRun env clause source ctx)) := by
  have hdone : ∀ outcome : Outcome, World.Blind (result host (pure outcome)) := fun _ _ _ => rfl
  cases clause with
  | condition | otherwise | event | command | function | loop | call => cases h
  | variableSet reference value =>
    exact blind_plainly (blind_bind (blind_access (Access.blind_evaluate ctx value)) fun v =>
      blind_bind (blind_access (Access.blind_assign ctx reference v)) fun _ => hdone _)
  | variableAdd reference value =>
    exact blind_plainly (blind_bind (blind_access (Access.blind_evaluate ctx value)) fun v =>
      blind_bind (blind_access (Access.blind_increase ctx reference v)) fun _ => hdone _)
  | variableDelete reference =>
    exact blind_plainly (blind_bind (blind_access (Access.blind_remove ctx reference)) fun _ => hdone _)
  | sendMessage message target => exact blind_plainly (blind_of_asks (asks_sendMessage ctx message target))
  | broadcast message => exact blind_plainly (blind_of_asks (asks_broadcast ctx message))
  | giveItem target amount item => exact blind_plainly (blind_of_asks (asks_giveItem ctx target amount item))
  | teleport target location => exact blind_plainly (blind_of_asks (asks_teleport ctx target location))
  | animate animation parameters => exact blind_plainly (blind_of_asks (asks_animate ctx animation parameters))
  | action => exact blind_plainly (blind_bind (blind_access (Access.blind_render ctx source)) fun _ => hdone _)
  | returnValue value =>
    cases value with
    | none => exact blind_plainly (hdone _)
    | some value =>
      exact blind_plainly (blind_bind (blind_access (Access.blind_evaluate ctx value)) fun _ => hdone _)
  | breakLoop | continueLoop => exact blind_plainly (hdone _)
  | cancelEvent => exact absurd rfl hcancel

end Run

/-! ## Calls of functions -/

theorem enterFunction_withFlags {caller : Nat} (function : Statement) (values : List Value) {w : World}
    (h : caller < w.memory.contexts.size) (flags : Nat → Bool) :
    enterFunction caller function values (w.withFlags flags) =
      (enterFunction caller function values w).withFlags
        (Function.update flags w.memory.contexts.size (flags caller)) := by
  have hclone : (w.memory.withFlags flags).cloneContext caller = (w.memory.cloneContext caller).withFlags
      (Function.update flags w.memory.contexts.size (flags caller)) :=
    w.memory.cloneContext_withFlags h (fun other hlt => Function.update_of_ne (Nat.ne_of_lt hlt) _ flags)
      (Function.update_self ..)
  have hsize : (w.withFlags flags).memory.contexts.size = w.memory.contexts.size :=
    w.memory.size_withFlags flags
  unfold enterFunction
  rw [← World.bound_withFlags, hsize]
  exact congrArg (fun memory => World.bound _ _ { w with memory }) hclone

theorem leaveFunction_withFlags (caller : Nat) {child : Nat} {w : World} (h : child < w.memory.contexts.size)
    (flags : Nat → Bool) :
    leaveFunction caller child (w.withFlags flags) =
      (leaveFunction caller child w).withFlags
        (Function.update flags caller (flags caller || flags child)) := by
  have hforget : ∀ flags', (leaveFunction caller child w).withFlags flags' = w.withFlags flags' := by
    intro flags'
    unfold leaveFunction
    split
    · exact w.withFlags_cancelling flags' caller
    · rfl
  rw [hforget]
  unfold leaveFunction
  rw [World.context_withFlags]
  cases hchild : flags child with
  | true =>
    rw [if_pos (by simp [h]), World.cancelling_withFlags, Bool.or_true]
  | false =>
    rw [if_neg (by simp), Bool.or_false, Function.update_eq_self]

namespace Machine

open Run

/-! ## Moves -/

section

variable {host : Host} {env : Invocation} {rules : Rules env} {calls ctx : Nat}

theorem blind_beginBranch (test : Option String) (body : List (Nat × Statement)) :
    World.Blind (beginBranch host calls ctx test body) := by
  intro w flags
  unfold beginBranch
  rw [blind_of_asks (asks_takes ctx test) w flags]
  rcases result host (takes ctx test) w with ⟨w', fault | _ | _⟩ <;> rfl

theorem blind_beginLoop (source : LoopSource) (argument : String) (body : List (Nat × Statement)) :
    World.Blind (beginLoop host calls ctx source argument body) := by
  intro w flags
  unfold beginLoop
  cases hheader : passesOf ctx source argument with
  | none => rfl
  | some header =>
    dsimp only
    rw [w.changeContext_withFlags_of_neutral flags ctx fun _ _ => rfl,
      blind_of_asks (asks_passesOf hheader) _ flags]
    rcases result host header (w.changeContext ctx Context.enterLoop) with ⟨w', fault | each⟩
    · exact congrArg (·, Move.fails fault) (w'.changeContext_withFlags_of_neutral flags ctx fun _ _ => rfl)
    · rfl

theorem blind_beginCall (name : String) (arguments : List String) :
    World.Blind (beginCall host env ctx name arguments) := by
  intro w flags
  unfold beginCall
  rw [blind_access (Access.blind_mapM (Access.blind_evaluate ctx) arguments) w flags]
  split
  · rcases result host (Run.access (arguments.mapM (evaluate ctx))) w with ⟨w', fault | values⟩ <;> rfl
  · rfl

theorem blind_beginInside (node : Nat) {u : Statement} (h : u.clause ≠ .cancelEvent) :
    World.Blind (beginInside host env calls ctx node u) := by
  by_cases hplain : u.clause.isPlain = true
  · intro w flags
    rw [beginInside_of_isPlain node hplain, beginInside_of_isPlain node hplain,
      blind_plainRun env hplain h u.source ctx w flags]
  · unfold beginInside
    cases hclause : u.clause with
    | condition test => exact blind_beginBranch (some test) _
    | otherwise test => exact blind_beginBranch test _
    | event | command | function => exact World.blind_same _
    | loop word source argument => exact blind_beginLoop source argument _
    | call name arguments => exact blind_beginCall name arguments
    | _ =>
      rw [hclause] at hplain
      exact absurd rfl hplain

theorem blind_beginPasses {each : Passes} (h : ∀ n, Asks (each n)) (body : List (Nat × Statement)) (n : Nat) :
    World.Blind (beginPasses host env calls ctx each body n) := by
  intro w flags
  unfold beginPasses
  rw [blind_of_asks (h n) w flags]
  rcases result host (each n) w with ⟨w', fault | _ | bindings⟩
  · rfl
  · rfl
  · dsimp only
    rw [w'.bound_withFlags]
    split <;> rfl

theorem blind_beginBlock (whole : Bool) (chain : Chain) (statements : List (Nat × Statement)) :
    World.Blind (beginBlock env calls ctx whole chain statements) := by
  intro w flags
  have hclock : (w.withFlags flags).clock = w.clock := rfl
  cases statements with
  | nil => rfl
  | cons first rest =>
    unfold beginBlock
    dsimp only
    rw [hclock]
    split
    · rfl
    · split <;> rfl

/-- The first move of a task has nothing to do with the flags, but for cancel statements and calls. -/
theorem blind_begin {task : Task} (h : task.Obeys rules host)
    (hcancel : ∀ node u, task = .inside node u → u.clause ≠ .cancelEvent)
    (hcall : ∀ name values, task ≠ .call name values) :
    World.Blind fun w => begin host env calls ctx w task := by
  cases task with
  | statement node u => exact fun _ _ => rfl
  | inside node u => exact blind_beginInside node (hcancel node u rfl)
  | block whole chain statements => exact blind_beginBlock whole chain statements
  | passes each body n => exact blind_beginPasses (Rules.Loops.asks h) body n
  | call name values => exact absurd rfl (hcall name values)

theorem blind_resume {pending : Pending} (h : pending.isCall = false) (ended : Ended) :
    World.Blind fun w => pending.resume env ctx w ended := by
  cases pending with
  | closing | branch => exact fun _ _ => rfl
  | loop => exact fun w flags =>
      congrArg (·, Control.give ended) (w.changeContext_withFlags_of_neutral flags ctx fun _ _ => rfl)
  | rest whole clause statements =>
    intro w flags
    rcases ended with fault | ⟨outcome, taken⟩
    · rfl
    · dsimp only [Pending.resume]
      split <;> rfl
  | pass each body n =>
    intro w flags
    rcases ended with fault | ⟨outcome, taken⟩
    · rfl
    · cases outcome <;> rfl
  | call caller => cases h

theorem beginFunction_cases (env : Invocation) (calls ctx : Nat) (name : String) (values : List Value) :
    (∃ outcome, ∀ w, beginFunction env calls ctx name values w = (w, .ends outcome)) ∨
      ∃ node function, ∀ w, beginFunction env calls ctx name values w =
        (enterFunction ctx function values w,
          .push (.call ctx) (calls + 1) w.memory.contexts.size (.statement node function)) := by
  unfold beginFunction
  split
  · cases env.functions.get? name with
    | none => exact .inl ⟨_, fun _ => rfl⟩
    | some found => exact .inr ⟨found.1, found.2, fun _ => rfl⟩
  · exact .inl ⟨_, fun _ => rfl⟩

/-! ## Ends of functions -/

namespace Task

def isStatement : Task → Bool
  | statement .. => true
  | _ => false

def isCall : Task → Bool
  | call .. => true
  | _ => false

end Task

/-- What a move brings in: only statements are started and ended, and only calls enter functions. -/
def Move.Fits (task : Task) : Move → Prop
  | next (.give _) => task.isStatement = false
  | next (.run inner) => task.isStatement = false ∧ inner.isInside = false
  | push pending _ _ inner =>
    pending.isClosing = task.isStatement ∧ inner.isInside = task.isStatement ∧
      pending.isCall = task.isCall ∧ (task.isCall = true → inner.isStatement = true)

theorem fits_beginInside (node : Nat) (u : Statement) (w : World) :
    (beginInside host env calls ctx node u w).2.Fits (.inside node u) := by
  have hbranch : ∀ test, (beginBranch host calls ctx test (bodyOf node u) w).2.Fits (.inside node u) := by
    intro test
    unfold beginBranch
    split
    · exact ⟨rfl, rfl, rfl, nofun⟩
    · rfl
    · rfl
  unfold beginInside
  split
  · exact hbranch _
  · exact hbranch _
  · exact ⟨rfl, rfl⟩
  · exact ⟨rfl, rfl⟩
  · exact ⟨rfl, rfl⟩
  · unfold beginLoop
    split
    · rfl
    · split
      · exact ⟨rfl, rfl, rfl, nofun⟩
      · rfl
  · unfold beginCall
    split
    · split
      · exact ⟨rfl, rfl⟩
      · rfl
    · rfl
  · rfl

theorem fits_begin (host : Host) (env : Invocation) (calls ctx : Nat) (w : World) (task : Task) :
    (begin host env calls ctx w task).2.Fits task := by
  cases task with
  | statement node u => exact ⟨rfl, rfl, rfl, nofun⟩
  | inside node u => exact fits_beginInside node u w
  | block whole chain statements =>
    unfold begin beginBlock
    cases statements with
    | nil => rfl
    | cons first rest =>
      dsimp only
      split
      · rfl
      · split
        · exact ⟨rfl, rfl⟩
        · exact ⟨rfl, rfl, rfl, nofun⟩
  | passes each body n =>
    unfold begin beginPasses
    dsimp only
    split
    · rfl
    · split
      · exact ⟨rfl, rfl, rfl, nofun⟩
      · rfl
    · rfl
  | call name values =>
    show (beginFunction env calls ctx name values w).2.Fits _
    rcases beginFunction_cases env calls ctx name values with ⟨outcome, hfails⟩ | ⟨node, function, henters⟩
    · rw [hfails]
      rfl
    · rw [henters]
      exact ⟨rfl, rfl, rfl, fun _ => rfl⟩

/-- Whether a statement is about to start or has come to an end without a fault. -/
def Control.atStatement : Control → Bool
  | run task => task.isStatement
  | give (.ok _) => true
  | give (.error _) => false

/-- Right above every call stands the statement of the function. -/
def Guarded : Bool → List Pending → Prop
  | _, [] => True
  | guarded, pending :: stack =>
    (pending.isCall = true → guarded = true) ∧ Guarded pending.isClosing stack

theorem Guarded.mono {b b' : Bool} {stack : List Pending} (h : Guarded b stack) (hb : b = true → b' = true) :
    Guarded b' stack := by
  cases stack with
  | nil => trivial
  | cons pending stack => exact ⟨fun hcall => hb (h.1 hcall), h.2⟩

theorem guarded_step {s t : State} (h : Guarded s.control.atStatement s.stack)
    (hstep : step host env s = some t) : Guarded t.control.atStatement t.stack := by
  rcases step_cases hstep with ⟨task, hcontrol, hmove⟩ | ⟨ended, pending, stack, hcontrol, hstack, rfl⟩
  · rw [hcontrol] at h
    have hfits := fits_begin host env s.calls s.ctx s.world task
    rcases hbegin : begin host env s.calls s.ctx s.world task with
      ⟨w, (inner | ended) | ⟨pending, calls', ctx', inner⟩⟩
    · rw [hbegin] at hmove hfits
      subst hmove
      exact h.mono fun hstatement => absurd (hfits.1.symm.trans hstatement) Bool.false_ne_true
    · rw [hbegin] at hmove hfits
      subst hmove
      exact h.mono fun hstatement => absurd (Eq.trans (Eq.symm hfits) hstatement) Bool.false_ne_true
    · rw [hbegin] at hmove hfits
      subst hmove
      obtain ⟨hclosing, -, hcall, hstatement⟩ := hfits
      refine ⟨fun hpending => hstatement (hcall.symm.trans hpending), ?_⟩
      rw [hclosing]
      exact h
  · rw [hstack] at h
    refine h.2.mono fun hclosing => ?_
    cases pending with
    | closing node line start => rfl
    | _ => cases hclosing

end

/-! ## Steps -/

/-- The contexts of the callers, the latest first. -/
def callers (stack : List Pending) : List Nat :=
  stack.filterMap fun
    | .call caller => some caller
    | _ => none

namespace State

/-- The state with other flags in the contexts of its world. -/
def withFlags (s : State) (flags : Nat → Bool) : State := { s with world := s.world.withFlags flags }

/-- The next step carries out a cancel statement. -/
def AboutToCancel (s : State) : Prop :=
  ∃ node u, s.control = .run (.inside node u) ∧ u.clause = .cancelEvent

/-- The context and those of the callers are there, and functions come to their ends. -/
structure Standing (s : State) : Prop where
  ctx : s.ctx < s.world.memory.contexts.size
  callers : ∀ caller ∈ callers s.stack, caller < s.world.memory.contexts.size
  guarded : Guarded s.control.atStatement s.stack

end State

/-- What a step does to the flags: it keeps them, a cancel statement sets one, a function is entered, or it is
left. -/
inductive FlagsMove (s t : State) (flags : Nat → Bool) : (Nat → Bool) → Prop
  | kept (hcancel : ¬ s.AboutToCancel) (hctx : t.ctx = s.ctx) (hcallers : callers t.stack = callers s.stack) :
      FlagsMove s t flags flags
  | cancelled (hcancel : s.AboutToCancel) (hctx : t.ctx = s.ctx)
      (hcallers : callers t.stack = callers s.stack) :
      FlagsMove s t flags (Function.update flags s.ctx true)
  | entered (hcancel : ¬ s.AboutToCancel) (hctx : t.ctx = s.world.memory.contexts.size)
      (hsize : t.world.memory.contexts.size = s.world.memory.contexts.size + 1)
      (hcallers : callers t.stack = s.ctx :: callers s.stack) :
      FlagsMove s t flags (Function.update flags s.world.memory.contexts.size (flags s.ctx))
  | left (hcancel : ¬ s.AboutToCancel) (hcallers : callers s.stack = t.ctx :: callers t.stack) :
      FlagsMove s t flags (Function.update flags t.ctx (flags t.ctx || flags s.ctx))

section

variable {host : Host} {env : Invocation} {rules : Rules env}

theorem callers_cons {pending : Pending} (h : pending.isCall = false) (stack : List Pending) :
    callers (pending :: stack) = callers stack := by
  cases pending with
  | call caller => cases h
  | _ => rfl

theorem contextBelow_of_not_isCall {pending : Pending} (h : pending.isCall = false) (ctx : Nat) :
    pending.contextBelow ctx = ctx := by
  cases pending with
  | call caller => cases h
  | _ => rfl

theorem step_of_cancel {s : State} {node : Nat} {u : Statement} (hcontrol : s.control = .run (.inside node u))
    (hclause : u.clause = .cancelEvent) :
    step host env s = some { s with
      control := .give (.ok (if env.config.cancelHaltsExecution then .cancelled else .done, none))
      world := (s.world.note (.cancelled s.ctx)).changeContext s.ctx fun c =>
        { c with cancelled := true } } := by
  have hbegin : begin host env s.calls s.ctx s.world (.inside node u) = _ :=
    beginInside_of_isPlain node (by rw [hclause]; rfl) s.world
  unfold step
  rw [hcontrol]
  dsimp only
  rw [hbegin, hclause]
  rfl

theorem flags_run {s t : State} {task : Task} (hobeys : task.Obeys rules host)
    (hctx : s.ctx < s.world.memory.contexts.size) (hcontrol : s.control = .run task)
    (hcancel : ¬ s.AboutToCancel) (hstep : step host env s = some t) (flags : Nat → Bool) :
    ∃ flags', step host env (s.withFlags flags) = some (t.withFlags flags') ∧ FlagsMove s t flags flags' := by
  obtain ⟨calls, ctx, control, stack, w⟩ := s
  obtain rfl : control = .run task := hcontrol
  unfold State.withFlags
  unfold step at hstep ⊢
  dsimp only at hstep hctx ⊢
  by_cases hcall : ∃ name values, task = .call name values
  · obtain ⟨name, values, rfl⟩ := hcall
    have hbegin : ∀ w, begin host env calls ctx w (.call name values) =
        beginFunction env calls ctx name values w := fun _ => rfl
    rw [hbegin] at hstep ⊢
    rcases beginFunction_cases env calls ctx name values with ⟨outcome, hfails⟩ | ⟨node, function, henters⟩
    · rw [hfails] at hstep ⊢
      cases hstep
      exact ⟨flags, rfl, .kept hcancel rfl rfl⟩
    · rw [henters] at hstep ⊢
      cases hstep
      rw [enterFunction_withFlags function values hctx flags]
      have hsize : (w.withFlags flags).memory.contexts.size = w.memory.contexts.size :=
        w.memory.size_withFlags flags
      rw [hsize]
      exact ⟨_, rfl, .entered hcancel rfl (size_enterFunction ctx function values w) rfl⟩
  · have hblind : begin host env calls ctx (w.withFlags flags) task =
        ((begin host env calls ctx w task).1.withFlags flags, (begin host env calls ctx w task).2) :=
      blind_begin hobeys (fun node u htask hclause => hcancel ⟨node, u, congrArg _ htask, hclause⟩)
        (fun name values htask => hcall ⟨name, values, htask⟩) w flags
    have hfits := fits_begin host env calls ctx w task
    rw [hblind]
    rcases hbegin : begin host env calls ctx w task with ⟨w', control | ⟨pending, calls', ctx', inner⟩⟩
    · rw [hbegin] at hstep
      cases hstep
      exact ⟨flags, rfl, .kept hcancel rfl rfl⟩
    · have hlowers := lowers_begin host env calls ctx task w
      rw [hbegin] at hstep hfits hlowers
      cases hstep
      have hpending : pending.isCall = false := by
        rw [hfits.2.2.1]
        cases task with
        | call name values => exact absurd ⟨name, values, rfl⟩ hcall
        | _ => rfl
      obtain ⟨-, -, ⟨-, -, rfl⟩ | ⟨rfl, -⟩⟩ := hlowers
      · exact ⟨flags, rfl, .kept hcancel rfl (callers_cons hpending stack)⟩
      · cases hpending

theorem flags_give {s : State} (hstanding : s.Standing) {ended : Ended} {pending : Pending}
    {stack : List Pending} (hcontrol : s.control = .give ended) (hstack : s.stack = pending :: stack)
    (flags : Nat → Bool) :
    let after := pending.resume env s.ctx s.world ended
    let t : State := ⟨pending.callsBelow s.calls, pending.contextBelow s.ctx, after.2, stack, after.1⟩
    ∃ flags', step host env (s.withFlags flags) = some (t.withFlags flags') ∧ FlagsMove s t flags flags' := by
  intro after t
  obtain ⟨hctx, -, hguarded⟩ := hstanding
  have hcancel : ¬ s.AboutToCancel := by
    rintro ⟨node, u, hrun, -⟩
    rw [hcontrol] at hrun
    cases hrun
  have hstep : step host env (s.withFlags flags) =
      some ⟨pending.callsBelow s.calls, pending.contextBelow s.ctx,
        (pending.resume env s.ctx (s.world.withFlags flags) ended).2, stack,
        (pending.resume env s.ctx (s.world.withFlags flags) ended).1⟩ := by
    unfold step State.withFlags
    dsimp only
    rw [hcontrol, hstack]
  rw [hstep]
  by_cases hcall : pending.isCall = true
  · -- a function is left: its statement has come to an end, so there is no fault
    cases pending with
    | call caller =>
      rw [hcontrol, hstack] at hguarded
      rcases ended with fault | ⟨outcome, taken⟩
      · cases hguarded.1 rfl
      · refine ⟨_, ?_, .left hcancel ?_⟩
        · dsimp only [Pending.resume]
          rw [leaveFunction_withFlags caller hctx flags]
          rfl
        · rw [hstack]
          rfl
    | _ => cases hcall
  · have hpending := Bool.eq_false_iff.2 hcall
    have hblind : pending.resume env s.ctx (s.world.withFlags flags) ended = _ :=
      blind_resume hpending ended s.world flags
    rw [hblind]
    refine ⟨flags, rfl, .kept hcancel (contextBelow_of_not_isCall hpending s.ctx) ?_⟩
    rw [hstack, callers_cons hpending]

theorem flags_step {s t : State} (hobeys : s.Obeys rules host) (hstanding : s.Standing)
    (hstep : step host env s = some t) (flags : Nat → Bool) :
    ∃ flags', step host env (s.withFlags flags) = some (t.withFlags flags') ∧ FlagsMove s t flags flags' := by
  by_cases hcancel : s.AboutToCancel
  · obtain ⟨node, u, hcontrol, hclause⟩ := id hcancel
    rw [step_of_cancel hcontrol hclause] at hstep
    cases hstep
    refine ⟨_, ?_, .cancelled hcancel rfl rfl⟩
    have hstep' : step host env (s.withFlags flags) = _ := step_of_cancel hcontrol hclause
    have hworld := ((s.world.note (.cancelled s.ctx)).cancelling_withFlags flags s.ctx).trans
      ((s.world.note (.cancelled s.ctx)).withFlags_cancelling (Function.update flags s.ctx true) s.ctx).symm
    rw [hstep']
    exact congrArg (fun world => some { s with
      control := .give (.ok (if env.config.cancelHaltsExecution then .cancelled else .done, none))
      world }) hworld
  rcases step_cases hstep with ⟨task, hcontrol, -⟩ | ⟨ended, pending, stack, hcontrol, hstack, rfl⟩
  · have htask := hobeys.control
    rw [hcontrol] at htask
    exact flags_run htask hstanding.ctx hcontrol hcancel hstep flags
  · exact flags_give hstanding hcontrol hstack flags

/-! ## Runs of the machine -/

theorem contextsFrame : Frame fun w w' => w.memory.contexts.size ≤ w'.memory.contexts.size where
  refl _ := Nat.le_refl _
  trans := Nat.le_trans
  changeMemory _ _ h := Nat.le_of_eq h.symm
  accessed _ := Nat.le_refl _
  called _ _ := Nat.le_refl _
  tested _ _ _ := Nat.le_refl _
  cancelled _ _ := Nat.le_refl _

theorem contexts_step {s t : State} (hobeys : s.Obeys rules host) (hstep : step host env s = some t) :
    s.world.memory.contexts.size ≤ t.world.memory.contexts.size := by
  have hmoves : Moves host rules fun w w' => w.memory.contexts.size ≤ w'.memory.contexts.size := by
    refine ⟨turns_of_frame contextsFrame ?_ ?_ ?_, ?_⟩
    · exact fun _ _ _ _ _ _ _ => Nat.le_refl _
    · exact fun _ _ _ => Nat.le_refl _
    · exact fun w ctx => Nat.le_trans (Nat.le_succ _) (Nat.le_of_eq (Table.size_push w.memory.contexts _).symm)
    · exact fun _ _ _ _ _ => Nat.le_refl _
  rcases moves_step hmoves hobeys hstep with hkept | ⟨node, u, -, -, hplain, rfl⟩
  · exact hkept
  · exact contextsFrame.plainRun env hplain u.source s.ctx s.world

theorem standing_step {s t : State} (hobeys : s.Obeys rules host) (hstanding : s.Standing)
    (hstep : step host env s = some t) : t.Standing := by
  have hguarded := guarded_step hstanding.guarded hstep
  have hsize := contexts_step hobeys hstep
  obtain ⟨hctx, hbelow, -⟩ := id hstanding
  have hcallers : ∀ caller ∈ callers s.stack, caller < t.world.memory.contexts.size :=
    fun caller hcaller => Nat.lt_of_lt_of_le (hbelow caller hcaller) hsize
  obtain ⟨flags', -, hmove⟩ := flags_step hobeys hstanding hstep fun _ => false
  cases hmove with
  | kept _ hsame hstack | cancelled _ hsame hstack =>
    refine ⟨hsame ▸ Nat.lt_of_lt_of_le hctx hsize, ?_, hguarded⟩
    rw [hstack]
    exact hcallers
  | entered _ hnew hmore hstack =>
    refine ⟨by omega, ?_, hguarded⟩
    rw [hstack]
    intro caller hcaller
    rcases List.mem_cons.1 hcaller with rfl | hcaller
    · omega
    · exact hcallers caller hcaller
  | left _ hstack =>
    rw [hstack] at hcallers
    exact ⟨hcallers _ List.mem_cons_self,
      fun caller hcaller => hcallers caller (List.mem_cons_of_mem _ hcaller), hguarded⟩

/-- With other flags the machine comes to the same states. -/
theorem flags_of_reaches {s t : State} (hobeys : s.Obeys rules host) (hstanding : s.Standing)
    (hreaches : Reaches host env s t) :
    t.Standing ∧ ∀ flags, ∃ flags', Reaches host env (s.withFlags flags) (t.withFlags flags') := by
  induction hreaches with
  | refl => exact ⟨hstanding, fun flags => ⟨flags, .refl⟩⟩
  | tail hbefore hstep ih =>
    have hobeys' := obeys_of_reaches hobeys hbefore
    refine ⟨standing_step hobeys' ih.1 hstep, fun flags => ?_⟩
    obtain ⟨flags', hreaches'⟩ := ih.2 flags
    obtain ⟨flags'', hstep', -⟩ := flags_step hobeys' ih.1 hstep flags'
    exact ⟨flags'', hreaches'.tail hstep'⟩

end

end Machine

end EventScript
