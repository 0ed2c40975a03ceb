import EventScript.Proofs.FirstError

/-!
What a run has to do, one move at a time.

A run consists of tasks: carrying out a statement, what the statement does inside, running a block from some
statement on, the passes of a loop from some number on, and calling a function. The first move of a task says
what is done at once and then either how the task goes on, or which task comes before the rest. What is left
to do after that task is pending.

Main definitions:
* `Task`, `Task.run`: tasks, and the runs that carry them out;
* `Pending`: what is left to do after a task;
* `begin`, `Pending.resume`: the first move of a task, and the move when a task inside has ended.

Main facts:
* `result_task`: the run of a task is its moves;
* `Run.Frame.plainRun`: what statements without a block keep.
-/

namespace EventScript

set_option autoImplicit false

open Statement Run

/-- Statements with their numbers in the script; `node` is that of the first. -/
def numberFrom : Nat → List Statement → List (Nat × Statement)
  | _, [] => []
  | node, s :: rest => (node, s) :: numberFrom (node + s.size) rest

/-- The statements of the block of a statement with their numbers. -/
def bodyOf (node : Nat) (s : Statement) : List (Nat × Statement) := numberFrom (node + 1) s.block

/-- Whether an outcome ends a block: the whole body of a function or of a run, or a block inside it. -/
def endsWhen (whole : Bool) : Outcome → Bool := if whole then Outcome.endsFrame else Outcome.endsBlock

/-- What a task ends with: an outcome and, for a branch, whether it was taken; or a fault. -/
abbrev Ended := Except Fault (Outcome × Option Bool)

/-- Whether a clause neither has a block nor calls a function. -/
def Clause.isPlain : Clause → Bool
  | condition _ | otherwise _ | event _ | command _ | function .. | loop .. | call .. => false
  | _ => true

/-- What a statement without a block and without a call does. -/
def plainRun (env : Invocation) (clause : Clause) (source : String) (ctx : Nat) :
    Run (Outcome × Option Bool) :=
  perform env (fun _ _ _ => pure .done) clause source (fun _ _ => pure .done) ctx

/-- Whether a branch is taken; a plain `else` is. -/
def takes (ctx : Nat) : Option String → Run Bool
  | none => pure true
  | some condition => holds ctx condition

/-- The world with values for local variables of a context. -/
def World.bound (ctx : Nat) (bindings : Bindings) (w : World) : World :=
  w.changeContext ctx fun c => bindings.foldl (fun c b => c.setLocal b.1 b.2) c

/-- The world in which the body of a function starts: with a clone of the calling context, in which the
parameters have their values. -/
def enterFunction (caller : Nat) (function : Statement) (values : List Value) (w : World) : World :=
  (w.changeMemory fun m => m.cloneContext caller).bound w.memory.contexts.size
    (bindParameters (parametersOf function) values)

/-- What a function gives its caller: what it returns becomes the payload of a success. -/
def Outcome.forCaller : Outcome → Outcome
  | returned payload => success none payload
  | outcome => outcome

/-- The world back in a caller: an event that was cancelled in the function is cancelled. -/
def leaveFunction (caller child : Nat) (w : World) : World :=
  if (w.memory.context child).cancelled then w.changeContext caller fun c => { c with cancelled := true }
  else w

namespace Machine

/-- Something that a run carries out in a context. -/
inductive Task where
  | statement (node : Nat) (s : Statement)
  | inside (node : Nat) (s : Statement)
  | block (whole : Bool) (chain : Chain) (statements : List (Nat × Statement))
  | passes (each : Passes) (body : List (Nat × Statement)) (n : Nat)
  | call (name : String) (values : List Value)

/-- Statements made ready to run where so many calls are under way. -/
def readied (env : Invocation) (calls : Nat) (statements : List (Nat × Statement)) : List Item :=
  statements.map fun (node, s) => ready env (invoke env (maxCallDepth - calls)) node s

/-- The run that carries out a task where so many calls are under way. -/
def Task.run (env : Invocation) (calls ctx : Nat) : Task → Run (Outcome × Option Bool)
  | statement node s => (ready env (invoke env (maxCallDepth - calls)) node s).carryOut env ctx
  | inside node s => (ready env (invoke env (maxCallDepth - calls)) node s).run ctx
  | block whole chain statements =>
    plainly (runBlock env (endsWhen whole) ctx chain (readied env calls statements))
  | passes each body n =>
    plainly (runPasses ctx each (runBlock env Outcome.endsBlock ctx none (readied env calls body))
      (env.config.maxLoopIterations.toNat - n) n)
  | call name values => plainly (invoke env (maxCallDepth - calls) name values ctx)

/-! ## Moves -/

/-- What is left to do after a task: the end of a statement, of a branch taken or of a loop, the rest of a
block, the passes after one, or the return to a caller. -/
inductive Pending where
  | closing (node : Nat) (line : Int) (start : Float)
  | branch
  | loop
  | rest (whole : Bool) (clause : Clause) (statements : List (Nat × Statement))
  | pass (each : Passes) (body : List (Nat × Statement)) (n : Nat)
  | call (caller : Nat)

/-- How things go on in a context: with a task, or back with what one ended with. -/
inductive Control where
  | run (task : Task)
  | give (ended : Ended)

/-- A move: things go on, or a task comes first, where so many calls are under way and in a context. -/
inductive Move where
  | next (control : Control)
  | push (pending : Pending) (calls ctx : Nat) (task : Task)

namespace Move

def ends (outcome : Outcome) : Move := next (.give (.ok (outcome, none)))

def fails (fault : Fault) : Move := next (.give (.error fault))

def goes (task : Task) : Move := next (.run task)

end Move

section

variable (host : Host) (env : Invocation) (calls ctx : Nat)

def beginBranch (test : Option String) (body : List (Nat × Statement)) (w : World) : World × Move :=
  match result host (takes ctx test) w with
  | (w', .ok true) => (w', .push .branch calls ctx (.block false none body))
  | (w', .ok false) => (w', .next (.give (.ok (.done, some false))))
  | (w', .error fault) => (w', .fails fault)

def beginLoop (source : LoopSource) (argument : String) (body : List (Nat × Statement)) (w : World) :
    World × Move :=
  match passesOf ctx source argument with
  | none =>
    (w, .ends (.failed s!"Unsupported loop source: {if argument.isEmpty then source.name else argument}"))
  | some header =>
    match result host header (w.changeContext ctx Context.enterLoop) with
    | (w', .ok passes) => (w', .push .loop calls ctx (.passes passes body 0))
    | (w', .error fault) => (w'.changeContext ctx Context.exitLoop, .fails fault)

def beginCall (name : String) (arguments : List String) (w : World) : World × Move :=
  if env.functions.contains name then
    match result host (Run.access (arguments.mapM (evaluate ctx))) w with
    | (w', .ok values) => (w', .goes (.call name values))
    | (w', .error fault) => (w', .fails fault)
  else (w, .ends (.failed s!"Unknown function: {name}"))

/-- The first move of what a statement does. -/
def beginInside (node : Nat) (s : Statement) (w : World) : World × Move :=
  match s.clause with
  | .condition test => beginBranch host calls ctx (some test) (bodyOf node s) w
  | .otherwise test => beginBranch host calls ctx test (bodyOf node s) w
  | .event _ | .command _ => (w, .goes (.block false none (bodyOf node s)))
  | .function .. => (w, .goes (.block true none (bodyOf node s)))
  | .loop _ source argument => beginLoop host calls ctx source argument (bodyOf node s) w
  | .call name arguments => beginCall host env ctx name arguments w
  | clause =>
    let ended := result host (plainRun env clause s.source ctx) w
    (ended.1, .next (.give ended.2))

def beginPasses (passes : Passes) (body : List (Nat × Statement)) (n : Nat) (w : World) : World × Move :=
  match result host (passes n) w with
  | (w', .ok none) => (w', .ends (loopCompleted n))
  | (w', .ok (some bindings)) =>
    if n < env.config.maxLoopIterations.toNat then
      (w'.bound ctx bindings, .push (.pass passes body n) calls ctx (.block false none body))
    else (w', .ends (loopCompleted n))
  | (w', .error fault) => (w', .fails fault)

def beginBlock (whole : Bool) (chain : Chain) (statements : List (Nat × Statement)) (w : World) :
    World × Move :=
  match statements with
  | [] => (w, .ends .done)
  | (node, s) :: rest =>
    if env.deadline < w.clock then
      (w.note (.timedOut env.script node ctx), .ends (timeout env s.line))
    else if passesOver chain s.clause then (w, .goes (.block whole chain rest))
    else (w, .push (.rest whole s.clause rest) calls ctx (.statement node s))

def beginFunction (name : String) (values : List Value) (w : World) : World × Move :=
  if calls < maxCallDepth then
    match env.functions.get? name with
    | none => (w, .ends (.failed s!"Unknown function: {name}"))
    | some (node, function) =>
      (enterFunction ctx function values w,
        .push (.call ctx) (calls + 1) w.memory.contexts.size (.statement node function))
  else (w, .ends (.failed s!"Maximum call depth exceeded calling {name}"))

/-- The first move of a task. -/
def begin (w : World) : Task → World × Move
  | .statement node s =>
    (w.note (.started env.script node ctx w.clock),
      .push (.closing node s.line w.clock) calls ctx (.inside node s))
  | .inside node s => beginInside host env calls ctx node s w
  | .block whole chain statements => beginBlock env calls ctx whole chain statements w
  | .passes each body n => beginPasses host env calls ctx each body n w
  | .call name values => beginFunction env calls ctx name values w

end

/-- The move when a task has ended in a context. -/
def Pending.resume (env : Invocation) (ctx : Nat) (w : World) (ended : Ended) : Pending → World × Control
  | closing node line start =>
    ((w.changeScript env.script fun s => s.recordStatement node ((w.clock - start) * 1000.0)).note
        (.ended env.script node ctx (settled line ended).1),
      .give (.ok (settled line ended)))
  | branch => (w, .give (ended.map fun e => (e.1, some true)))
  | loop => (w.changeContext ctx Context.exitLoop, .give ended)
  | rest whole clause statements =>
    match ended with
    | .ok (outcome, taken) =>
      if endsWhen whole outcome then (w, .give (.ok (outcome, none)))
      else (w, .run (.block whole (chainAfter clause taken) statements))
    | .error fault => (w, .give (.error fault))
  | pass passes body n =>
    match ended with
    | .ok (.broke, _) => (w, .give (.ok (loopCompleted (n + 1), none)))
    | .ok (.continued, _) | .ok (.success .., _) => (w, .run (.passes passes body (n + 1)))
    | ended => (w, .give ended)
  | call caller =>
    match ended with
    | .ok (outcome, _) => (leaveFunction caller ctx w, .give (.ok (outcome.forCaller, none)))
    | .error fault => (w, .give (.error fault))

/-! ## Runs are their moves -/

section

variable (host : Host) (env : Invocation) (calls ctx : Nat)

/-- What comes of going on. -/
def Control.settle (w : World) : Control → World × Ended
  | run task => result host (task.run env calls ctx) w
  | give ended => (w, ended)

/-- What comes of a move. -/
def Move.settle (w : World) : Move → World × Ended
  | next control => control.settle host env calls ctx w
  | push pending calls' ctx' task =>
    let ended := result host (task.run env calls' ctx') w
    let after := pending.resume env ctx' ended.1 ended.2
    after.2.settle host env calls ctx after.1

end

variable {host : Host} {env : Invocation}

theorem result_plainly (run : Run Outcome) (w : World) :
    result host (plainly run) w =
      ((result host run w).1, (result host run w).2.map fun outcome => (outcome, none)) := by
  unfold plainly
  rw [result_bind]
  cases (result host run w).2 <;> rfl

theorem result_of_plainly {run : Run Outcome} {w w' : World} {outcome : Outcome} {taken : Option Bool}
    (h : result host (plainly run) w = (w', .ok (outcome, taken))) :
    result host run w = (w', .ok outcome) := by
  rw [result_plainly] at h
  obtain ⟨hworld, hended⟩ := Prod.mk.inj h
  rcases hrun : result host run w with ⟨w'', fault | outcome'⟩
  · rw [hrun] at hended
    cases hended
  · rw [hrun] at hworld hended
    cases hworld
    cases hended
    rfl

theorem result_bindAll (ctx : Nat) (bindings : Bindings) (w : World) :
    result host (bindAll ctx bindings) w = (w.bound ctx bindings, .ok ()) := rfl

theorem settle_give {calls ctx : Nat} (ended : World × Ended) :
    (Move.next (.give ended.2)).settle host env calls ctx ended.1 = ended := rfl

theorem readyAll_eq (calls node : Nat) (statements : List Statement) :
    readyAll env (invoke env (maxCallDepth - calls)) node statements =
      readied env calls (numberFrom node statements) := by
  induction statements generalizing node with
  | nil => simp [readyAll, readied, numberFrom]
  | cons s rest ih =>
    rw [readyAll_cons, ih]
    rfl

theorem run_inside (calls ctx node : Nat) (s : Statement) :
    (Task.inside node s).run env calls ctx =
      perform env (invoke env (maxCallDepth - calls)) s.clause s.source
        (fun ends ctx => runBlock env ends ctx none (readied env calls (bodyOf node s))) ctx := by
  show (ready env (invoke env (maxCallDepth - calls)) node s).run ctx = _
  rw [ready_eq, readyAll_eq]
  rfl

theorem result_statement (calls ctx node : Nat) (s : Statement) (w : World) :
    result host ((Task.statement node s).run env calls ctx) w =
      (begin host env calls ctx w (.statement node s)).2.settle host env calls ctx
        (begin host env calls ctx w (.statement node s)).1 := by
  have hnode : (ready env (invoke env (maxCallDepth - calls)) node s).node = node := by rw [ready_eq]
  have hline : (ready env (invoke env (maxCallDepth - calls)) node s).line = s.line := by rw [ready_eq]
  unfold Task.run
  rw [result_carryOut, hnode, hline]
  rfl

theorem result_branch (calls ctx : Nat) (test : Option String) (body : List (Nat × Statement))
    (w : World) :
    result host (runBranch ctx test (runBlock env Outcome.endsBlock ctx none (readied env calls body))) w =
      (beginBranch host calls ctx test body w).2.settle host env calls ctx
        (beginBranch host calls ctx test body w).1 := by
  have hrun : runBranch ctx test (runBlock env Outcome.endsBlock ctx none (readied env calls body)) =
      takes ctx test >>= fun taken =>
        if taken then (do
          return (← runBlock env Outcome.endsBlock ctx none (readied env calls body), some true))
        else return (.done, some false) := by
    cases test <;> rfl
  rw [hrun]
  unfold beginBranch
  rcases htest : result host (takes ctx test) w with ⟨w', fault | taken⟩
  · rw [result_bind_error htest]
    rfl
  · rw [result_bind_ok htest]
    cases taken with
    | false => rfl
    | true =>
      have hends : endsWhen false = Outcome.endsBlock := rfl
      simp only [if_true, Move.settle, Pending.resume, Control.settle, Task.run, result_plainly, hends]
      rw [result_bind]
      cases (result host (runBlock env Outcome.endsBlock ctx none (readied env calls body)) w').2 <;> rfl

theorem result_loop (calls ctx : Nat) (source : LoopSource) (argument : String)
    (body : List (Nat × Statement)) (w : World) :
    result host (plainly (runLoop env ctx source argument
        (runBlock env Outcome.endsBlock ctx none (readied env calls body)))) w =
      (beginLoop host calls ctx source argument body w).2.settle host env calls ctx
        (beginLoop host calls ctx source argument body w).1 := by
  unfold runLoop beginLoop
  cases passesOf ctx source argument with
  | none => rfl
  | some header =>
    dsimp only
    rw [result_plainly, result_bind_ok (result_changeContext _ _ _), changeContext, result_closingWith]
    rcases hheader : result host header (w.changeContext ctx Context.enterLoop) with ⟨w', fault | each⟩
    · rw [result_bind_error hheader]
      rfl
    · rw [result_bind_ok hheader]
      simp only [Move.settle, Pending.resume, Control.settle, Task.run, result_plainly]
      rfl

theorem result_callStatement (calls ctx : Nat) (name : String) (arguments : List String) (w : World) :
    result host (plainly (callWith env (invoke env (maxCallDepth - calls)) ctx name arguments)) w =
      (beginCall host env ctx name arguments w).2.settle host env calls ctx
        (beginCall host env ctx name arguments w).1 := by
  unfold callWith beginCall
  split
  · rw [result_plainly]
    rcases hvalues : result host (Run.access (arguments.mapM (evaluate ctx))) w with ⟨w', fault | values⟩
    · rw [result_bind_error hvalues]
      rfl
    · rw [result_bind_ok hvalues]
      exact (result_plainly _ _).symm
  · rfl

theorem result_passes (calls ctx : Nat) (passes : Passes) (body : List (Nat × Statement)) (n : Nat)
    (w : World) :
    result host ((Task.passes passes body n).run env calls ctx) w =
      (beginPasses host env calls ctx passes body n w).2.settle host env calls ctx
        (beginPasses host env calls ctx passes body n w).1 := by
  unfold beginPasses
  simp only [Task.run, result_plainly]
  unfold runPasses
  rcases hpass : result host (passes n) w with ⟨w', fault | found⟩
  · rw [result_bind_error hpass]
    rfl
  · rw [result_bind_ok hpass]
    cases found with
    | none => rfl
    | some bindings =>
      dsimp only
      by_cases hn : n < env.config.maxLoopIterations.toNat
      · rw [if_pos hn]
        obtain ⟨more, hmore⟩ := Nat.exists_eq_add_of_lt hn
        have hleft : env.config.maxLoopIterations.toNat - n = more + 1 := by omega
        have hleft' : env.config.maxLoopIterations.toNat - (n + 1) = more := by omega
        have hends : endsWhen false = Outcome.endsBlock := rfl
        rw [hleft]
        dsimp only
        rw [result_bind_ok (result_bindAll ctx bindings w')]
        simp only [Move.settle, Task.run, result_plainly, hends]
        rw [result_bind]
        rcases hbody : result host (runBlock env Outcome.endsBlock ctx none (readied env calls body))
          (w'.bound ctx bindings) with ⟨w'', fault | outcome⟩
        · rfl
        · cases outcome with
          | success message payload | continued =>
            simp only [Except.map, Pending.resume, Control.settle, Task.run, result_plainly, hleft']
          | _ => rfl
      · rw [if_neg hn]
        have hleft : env.config.maxLoopIterations.toNat - n = 0 := by omega
        rw [hleft]
        rfl

theorem perform_eq_plainRun {clause : Clause} (h : clause.isPlain = true) (caller : Caller)
    (source : String) (block : (Outcome → Bool) → Nat → Run Outcome) (ctx : Nat) :
    perform env caller clause source block ctx = plainRun env clause source ctx := by
  cases clause with
  | condition | otherwise | event | command | function | loop | call => cases h
  | returnValue value => cases value <;> rfl
  | _ => rfl

theorem result_inside (calls ctx node : Nat) (s : Statement) (w : World) :
    result host ((Task.inside node s).run env calls ctx) w =
      (beginInside host env calls ctx node s w).2.settle host env calls ctx
        (beginInside host env calls ctx node s w).1 := by
  rw [run_inside]
  unfold beginInside
  cases hclause : s.clause with
  | condition test => exact result_branch calls ctx (some test) (bodyOf node s) w
  | otherwise test => exact result_branch calls ctx test (bodyOf node s) w
  | loop word source argument => exact result_loop calls ctx source argument (bodyOf node s) w
  | call name arguments => exact result_callStatement calls ctx name arguments w
  | event eventType | command command | function name parameters => rfl
  | _ =>
    rw [perform_eq_plainRun rfl]
    dsimp only
    rw [settle_give]

theorem result_block (calls ctx : Nat) (whole : Bool) (chain : Chain) (statements : List (Nat × Statement))
    (w : World) :
    result host ((Task.block whole chain statements).run env calls ctx) w =
      (beginBlock env calls ctx whole chain statements w).2.settle host env calls ctx
        (beginBlock env calls ctx whole chain statements w).1 := by
  cases statements with
  | nil => rfl
  | cons first rest =>
    obtain ⟨node, s⟩ := first
    have hready : readied env calls ((node, s) :: rest) =
        ready env (invoke env (maxCallDepth - calls)) node s :: readied env calls rest := rfl
    have hnode : (ready env (invoke env (maxCallDepth - calls)) node s).node = node := by rw [ready_eq]
    have hline : (ready env (invoke env (maxCallDepth - calls)) node s).line = s.line := by rw [ready_eq]
    have hclause : (ready env (invoke env (maxCallDepth - calls)) node s).clause = s.clause := by
      rw [ready_eq]
    simp only [Task.run, result_plainly, hready]
    unfold runBlock beginBlock
    dsimp only
    rw [result_bind_ok (result_clock w), hnode, hline, hclause]
    by_cases hlate : env.deadline < w.clock
    · rw [if_pos hlate, if_pos hlate]
      rfl
    · rw [if_neg hlate, if_neg hlate]
      by_cases hover : passesOver chain s.clause = true
      · rw [if_pos hover, if_pos hover]
        exact (result_plainly _ _).symm
      · rw [if_neg hover, if_neg hover]
        rcases hended : result host
          ((ready env (invoke env (maxCallDepth - calls)) node s).carryOut env ctx) w with
          ⟨w', fault | ⟨outcome, taken⟩⟩
        · rw [result_bind_error hended]
          simp only [Move.settle, Task.run, hended]
          rfl
        · rw [result_bind_ok hended]
          simp only [Move.settle, Task.run, hended, Pending.resume]
          by_cases hends : endsWhen whole outcome = true
          · rw [if_pos hends, if_pos hends]
            rfl
          · rw [if_neg hends, if_neg hends]
            exact (result_plainly _ _).symm

theorem result_runFunction (caller : Caller) (node : Nat) (function : Statement) (values : List Value)
    (ctx : Nat) (w : World) :
    let child := w.memory.contexts.size
    let ended := result host ((ready env caller node function).carryOut env child)
      (enterFunction ctx function values w)
    result host (runFunction env caller node function values ctx) w =
      match ended.2 with
      | .ok (outcome, _) => (leaveFunction ctx child ended.1, .ok outcome.forCaller)
      | .error fault => (ended.1, .error fault) := by
  intro child ended
  unfold runFunction
  rw [result_bind_ok (result_look w)]
  dsimp only
  rw [result_bind_ok (result_change _ w), result_bind_ok (result_bindAll _ _ _), result_bind]
  have hended : result host ((ready env caller node function).carryOut env child)
      (enterFunction ctx function values w) = (ended.1, ended.2) := rfl
  unfold enterFunction at hended
  rw [hended]
  rcases ended.2 with fault | ⟨outcome, taken⟩
  · rfl
  · dsimp only
    rw [result_bind_ok (result_look _)]
    unfold leaveFunction
    split
    · rw [result_bind_ok (result_changeContext _ _ _)]
      cases outcome <;> rfl
    · cases outcome <;> rfl

theorem result_call (calls ctx : Nat) (name : String) (values : List Value) (w : World) :
    result host ((Task.call name values).run env calls ctx) w =
      (beginFunction env calls ctx name values w).2.settle host env calls ctx
        (beginFunction env calls ctx name values w).1 := by
  simp only [Task.run, result_plainly]
  unfold beginFunction
  by_cases hcalls : calls < maxCallDepth
  · have hmore : maxCallDepth - calls = (maxCallDepth - (calls + 1)) + 1 := by omega
    rw [if_pos hcalls, hmore]
    unfold invoke
    cases env.functions.get? name with
    | none => rfl
    | some found =>
      obtain ⟨node, function⟩ := found
      dsimp only
      rw [result_runFunction]
      simp only [Move.settle, Pending.resume, Task.run]
      rcases (result host ((ready env (invoke env (maxCallDepth - (calls + 1))) node function).carryOut env
        w.memory.contexts.size) (enterFunction ctx function values w)).2 with fault | ⟨outcome, taken⟩
      · rfl
      · rfl
  · have hmore : maxCallDepth - calls = 0 := by omega
    rw [if_neg hcalls, hmore]
    rfl

/-- The run of a task is its moves. -/
theorem result_task (calls ctx : Nat) (task : Task) (w : World) :
    result host (task.run env calls ctx) w =
      (begin host env calls ctx w task).2.settle host env calls ctx (begin host env calls ctx w task).1 := by
  cases task with
  | statement node s => exact result_statement calls ctx node s w
  | inside node s => exact result_inside calls ctx node s w
  | block whole chain statements => exact result_block calls ctx whole chain statements w
  | passes each body n => exact result_passes calls ctx each body n w
  | call name values => exact result_call calls ctx name values w

end Machine

/-- A statement without a block and without a call keeps what expressions and actions keep. -/
theorem Run.Frame.plainRun {R : World → World → Prop} (hR : Frame R) {host : Host} (env : Invocation)
    {clause : Clause} (h : clause.isPlain = true) (source : String) (ctx : Nat) :
    Keeps host R (EventScript.plainRun env clause source ctx) := by
  cases clause with
  | condition | otherwise | event | command | function | loop | call => cases h
  | variableSet reference value =>
    exact hR.plainly (hR.bind (hR.access _) fun _ => hR.bind (hR.access _) fun _ => hR.pure _)
  | variableAdd reference value =>
    exact hR.plainly (hR.bind (hR.access _) fun _ => hR.bind (hR.access _) fun _ => hR.pure _)
  | variableDelete reference => exact hR.plainly (hR.bind (hR.access _) fun _ => hR.pure _)
  | sendMessage message target => exact hR.plainly (hR.asks (asks_sendMessage ctx message target))
  | broadcast message => exact hR.plainly (hR.asks (asks_broadcast ctx message))
  | giveItem target amount item => exact hR.plainly (hR.asks (asks_giveItem ctx target amount item))
  | teleport target location => exact hR.plainly (hR.asks (asks_teleport ctx target location))
  | animate animation parameters => exact hR.plainly (hR.asks (asks_animate ctx animation parameters))
  | action => exact hR.plainly (hR.bind (hR.access _) fun _ => hR.pure _)
  | returnValue value =>
    cases value with
    | none => exact hR.plainly (hR.pure _)
    | some value => exact hR.plainly (hR.bind (hR.access _) fun _ => hR.pure _)
  | breakLoop => exact hR.plainly (hR.pure _)
  | continueLoop => exact hR.plainly (hR.pure _)
  | cancelEvent => exact hR.plainly (hR.cancelEvent env ctx)

end EventScript
