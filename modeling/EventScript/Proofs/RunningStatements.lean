import EventScript.Proofs.ControlFlow
import EventScript.Proofs.RunSteps
import EventScript.Proofs.WholeRuns

/-!
Which statements a run comes to.

The machine comes to a statement from the block it stands in or by a call of a function. Rules say which
statements may be carried out and which blocks may be run; if they fit together, what the machine obeys at the
start it obeys all along. A step then does one of a few things to the world, or it carries out a statement
without a block and without a call.

Main definitions:
* `Rules`, `State.Obeys`: rules for statements and blocks, and states that obey them;
* `Turns`, `Moves`: a relation that holds across what steps do;
* `Rules.inTree`: only statements of a tree are carried out;
* `Request`: executing statements of a script, or calling one of its functions.

Main facts:
* `obeys_of_reaches`: the rules are obeyed all along;
* `turns_step`, `moves_step`, `moves_of_reaches`: what a step does, and a run of the machine;
* `Request.ends_within`: an invocation ends at once or as the machine does, with a deadline.
-/

namespace EventScript.Machine

set_option autoImplicit false

open Statement Run

/-! ## Rules -/

/-- Which statements may be carried out, and which blocks may be run where a chain of branches stands. -/
structure Rules (env : Invocation) where
  may : Nat → Statement → Prop
  block : Chain → List (Nat × Statement) → Prop
  first : ∀ {chain node s rest}, block chain ((node, s) :: rest) → passesOver chain s.clause = false →
    may node s
  skipped : ∀ {chain node s rest}, block chain ((node, s) :: rest) → passesOver chain s.clause = true →
    block chain rest
  after : ∀ {chain node s rest}, block chain ((node, s) :: rest) → passesOver chain s.clause = false →
    ∀ taken, block (chainAfter s.clause taken) rest
  body : ∀ {node s}, may node s → block none (bodyOf node s)
  called : ∀ {name node function}, env.functions.get? name = some (node, function) → may node function

variable {host : Host} {env : Invocation} {rules : Rules env}

/-- The passes and the body of a loop that may be carried out. -/
def Rules.Loops (rules : Rules env) (host : Host) (each : Passes) (body : List (Nat × Statement)) : Prop :=
  ∃ node s word source argument ctx header w, rules.may node s ∧ s.clause = .loop word source argument ∧
    body = bodyOf node s ∧ passesOf ctx source argument = some header ∧ (result host header w).2 = .ok each

def Task.Obeys (rules : Rules env) (host : Host) : Task → Prop
  | statement node s | inside node s => rules.may node s
  | block _ chain statements => rules.block chain statements
  | passes each body _ => rules.Loops host each body
  | call _ _ => True

def Pending.Obeys (rules : Rules env) (host : Host) : Pending → Prop
  | closing node _ _ => ∃ s, rules.may node s
  | rest _ clause statements => ∀ taken, rules.block (chainAfter clause taken) statements
  | pass each body _ => rules.Loops host each body
  | branch | loop | call _ => True

def Control.Obeys (rules : Rules env) (host : Host) : Control → Prop
  | run task => task.Obeys rules host
  | give _ => True

def Move.Obeys (rules : Rules env) (host : Host) : Move → Prop
  | next control => control.Obeys rules host
  | push pending _ _ task => pending.Obeys rules host ∧ task.Obeys rules host

/-- All that a state goes on with and has pending obeys the rules. -/
structure State.Obeys (rules : Rules env) (host : Host) (s : State) : Prop where
  control : s.control.Obeys rules host
  stack : ∀ pending ∈ s.stack, pending.Obeys rules host

theorem Rules.Loops.block {each : Passes} {body : List (Nat × Statement)} (h : rules.Loops host each body) :
    rules.block none body := by
  obtain ⟨node, s, word, source, argument, ctx, header, w, hmay, -, rfl, -⟩ := h
  exact rules.body hmay

section

variable {calls ctx : Nat} {w : World}

theorem obeys_beginBranch (test : Option String) {body : List (Nat × Statement)}
    (h : rules.block none body) : (beginBranch host calls ctx test body w).2.Obeys rules host := by
  unfold beginBranch
  split
  · exact ⟨trivial, h⟩
  · trivial
  · trivial

theorem obeys_beginInside {node : Nat} {s : Statement} (h : rules.may node s) :
    (beginInside host env calls ctx node s w).2.Obeys rules host := by
  have hbody := rules.body h
  unfold beginInside
  cases hclause : s.clause with
  | condition test => exact obeys_beginBranch (some test) hbody
  | otherwise test => exact obeys_beginBranch test hbody
  | event | command | function => exact hbody
  | loop word source argument =>
    dsimp only [beginLoop]
    cases hheader : passesOf ctx source argument with
    | none => trivial
    | some header =>
      dsimp only
      split
      · rename_i w' each hpasses
        refine ⟨trivial, node, s, word, source, argument, ctx, header,
          w.changeContext ctx Context.enterLoop, h, hclause, rfl, hheader, ?_⟩
        rw [hpasses]
      · trivial
  | call name arguments =>
    dsimp only [beginCall]
    split
    · split <;> trivial
    · trivial
  | _ => trivial

theorem obeys_begin {task : Task} (h : task.Obeys rules host) :
    (begin host env calls ctx w task).2.Obeys rules host := by
  cases task with
  | statement node s => exact ⟨⟨s, h⟩, h⟩
  | inside node s => exact obeys_beginInside h
  | block whole chain statements =>
    unfold begin beginBlock
    cases statements with
    | nil => trivial
    | cons first rest =>
      dsimp only
      split
      · trivial
      · split
        · rename_i hover
          exact rules.skipped h hover
        · rename_i hover
          have hgoes := Bool.eq_false_iff.2 hover
          exact ⟨rules.after h hgoes, rules.first h hgoes⟩
  | passes each body n =>
    unfold begin beginPasses
    dsimp only
    split
    · trivial
    · split
      · exact ⟨h, Rules.Loops.block h⟩
      · trivial
    · trivial
  | call name values =>
    unfold begin beginFunction
    dsimp only
    split
    · split
      · trivial
      · rename_i hfunction
        exact ⟨trivial, rules.called hfunction⟩
    · trivial

theorem obeys_resume {pending : Pending} (h : pending.Obeys rules host) (ended : Ended) :
    (pending.resume env ctx w ended).2.Obeys rules host := by
  cases pending with
  | closing | branch | loop => trivial
  | rest whole clause statements =>
    rcases ended with fault | ⟨outcome, taken⟩
    · trivial
    · dsimp only [Pending.resume]
      split
      · trivial
      · exact h taken
  | pass each body n =>
    rcases ended with fault | ⟨outcome, taken⟩
    · trivial
    · cases outcome with
      | success | continued => exact h
      | _ => trivial
  | call caller => rcases ended with fault | ⟨outcome, taken⟩ <;> trivial

end

theorem obeys_step {s t : State} (h : s.Obeys rules host) (hstep : step host env s = some t) :
    t.Obeys rules host := by
  obtain ⟨hcontrol, hstack⟩ := h
  rcases step_cases hstep with ⟨task, hrun, hmove⟩ | ⟨ended, pending, stack, -, hpending, rfl⟩
  · rw [hrun] at hcontrol
    have hobeys : (begin host env s.calls s.ctx s.world task).2.Obeys rules host := obeys_begin hcontrol
    rcases hbegin : begin host env s.calls s.ctx s.world task with
      ⟨w, control | ⟨pending, calls', ctx', inner⟩⟩
    · rw [hbegin] at hmove hobeys
      subst hmove
      exact ⟨hobeys, hstack⟩
    · rw [hbegin] at hmove hobeys
      subst hmove
      refine ⟨hobeys.2, fun other hother => ?_⟩
      rcases List.mem_cons.1 hother with rfl | hother
      · exact hobeys.1
      · exact hstack other hother
  · rw [hpending] at hstack
    exact ⟨obeys_resume (hstack pending List.mem_cons_self) ended,
      fun other hother => hstack other (List.mem_cons_of_mem _ hother)⟩

theorem obeys_of_reaches {s t : State} (h : s.Obeys rules host) (hreaches : Reaches host env s t) :
    t.Obeys rules host := by
  induction hreaches with
  | refl => exact h
  | tail _ hstep ih => exact obeys_step ih hstep

theorem obeys_start {task : Task} (h : task.Obeys rules host) (ctx : Nat) (w : World) :
    (start ctx task w).Obeys rules host :=
  ⟨h, fun _ hpending => absurd hpending List.not_mem_nil⟩

/-! ## What steps do to the world -/

/-- A clause is carried out with a test: a condition, or an `else` with or without one. -/
def Tests (clause : Clause) (test : Option String) : Prop :=
  (∃ condition, clause = .condition condition ∧ test = some condition) ∨ clause = .otherwise test

/-- A relation between worlds that holds across whatever steps do, but for the starts of statements and for
statements without a block and without a call. -/
structure Turns (host : Host) (rules : Rules env) (R : World → World → Prop) : Prop where
  refl : ∀ w, R w w
  trans : ∀ {a b c}, R a b → R b c → R a c
  ended : ∀ w {node s} ctx ms outcome, rules.may node s →
    R w ((w.changeScript env.script fun s => s.recordStatement node ms).note
      (.ended env.script node ctx outcome))
  timedOut : ∀ w node ctx, R w (w.note (.timedOut env.script node ctx))
  tested : ∀ {node s test} ctx, rules.may node s → Tests s.clause test → Keeps host R (takes ctx test)
  header : ∀ {ctx source argument header}, passesOf ctx source argument = some header → Keeps host R header
  pass : ∀ {each body} n, rules.Loops host each body → Keeps host R (each n)
  arguments : ∀ ctx (arguments : List String), Keeps host R (Run.access (arguments.mapM (evaluate ctx)))
  entersLoop : ∀ w ctx, R w (w.changeContext ctx Context.enterLoop)
  exitsLoop : ∀ w ctx, R w (w.changeContext ctx Context.exitLoop)
  bound : ∀ w ctx bindings, R w (w.bound ctx bindings)
  entered : ∀ w ctx function values, R w (enterFunction ctx function values w)
  left : ∀ w caller child, R w (leaveFunction caller child w)

/-- A relation between worlds that holds across whatever steps do, but for statements without a block and
without a call. -/
structure Moves (host : Host) (rules : Rules env) (R : World → World → Prop) : Prop
    extends Turns host rules R where
  started : ∀ w {node s} ctx, rules.may node s → R w (w.note (.started env.script node ctx w.clock))

/-- A step starts a statement. -/
def Starts (env : Invocation) (node : Nat) (u : Statement) (s t : State) : Prop :=
  s.control = .run (.statement node u) ∧
    t = { s with
      control := .run (.inside node u)
      stack := .closing node u.line s.world.clock :: s.stack
      world := s.world.note (.started env.script node s.ctx s.world.clock) }

/-- A step carries out a statement without a block and without a call. -/
def Performs (host : Host) (env : Invocation) (node : Nat) (u : Statement) (s t : State) : Prop :=
  s.control = .run (.inside node u) ∧ u.clause.isPlain = true ∧
    t = { s with
      control := .give (result host (plainRun env u.clause u.source s.ctx) s.world).2
      world := (result host (plainRun env u.clause u.source s.ctx) s.world).1 }

section

variable {R : World → World → Prop} {calls ctx : Nat} {w : World}

theorem turns_beginBranch (hR : Turns host rules R) {node : Nat} {s : Statement} (h : rules.may node s)
    {test : Option String} (htest : Tests s.clause test) (body : List (Nat × Statement)) :
    R w (beginBranch host calls ctx test body w).1 := by
  have hkeeps := hR.tested ctx h htest w
  unfold beginBranch
  rcases hresult : result host (takes ctx test) w with ⟨w', fault | _ | _⟩ <;> rwa [hresult] at hkeeps

theorem turns_beginLoop (hR : Turns host rules R) (source : LoopSource) (argument : String)
    (body : List (Nat × Statement)) : R w (beginLoop host calls ctx source argument body w).1 := by
  unfold beginLoop
  cases hheader : passesOf ctx source argument with
  | none => exact hR.refl w
  | some header =>
    have hkeeps := hR.trans (hR.entersLoop w ctx) (hR.header hheader _)
    dsimp only
    rcases hresult : result host header (w.changeContext ctx Context.enterLoop) with ⟨w', fault | each⟩
    · rw [hresult] at hkeeps
      exact hR.trans hkeeps (hR.exitsLoop w' ctx)
    · rwa [hresult] at hkeeps

theorem turns_beginCall (hR : Turns host rules R) (name : String) (arguments : List String) :
    R w (beginCall host env ctx name arguments w).1 := by
  have hkeeps := hR.arguments ctx arguments w
  unfold beginCall
  split
  · rcases hresult : result host (Run.access (arguments.mapM (evaluate ctx))) w with ⟨w', fault | values⟩ <;>
      rwa [hresult] at hkeeps
  · exact hR.refl w

theorem turns_beginPasses (hR : Turns host rules R) {each : Passes} {body : List (Nat × Statement)}
    (h : rules.Loops host each body) (n : Nat) : R w (beginPasses host env calls ctx each body n w).1 := by
  have hkeeps := hR.pass n h w
  unfold beginPasses
  rcases hresult : result host (each n) w with ⟨w', fault | found⟩
  · rwa [hresult] at hkeeps
  · rw [hresult] at hkeeps
    cases found with
    | none => exact hkeeps
    | some bindings =>
      dsimp only
      split
      · exact hR.trans hkeeps (hR.bound w' ctx bindings)
      · exact hkeeps

theorem turns_beginInside (hR : Turns host rules R) {node : Nat} {s : Statement} (h : rules.may node s)
    (hplain : s.clause.isPlain = false) : R w (beginInside host env calls ctx node s w).1 := by
  unfold beginInside
  cases hclause : s.clause with
  | condition test => exact turns_beginBranch hR h (.inl ⟨test, hclause, rfl⟩) _
  | otherwise test => exact turns_beginBranch hR h (.inr hclause) _
  | event | command | function => exact hR.refl w
  | loop word source argument => exact turns_beginLoop hR source argument _
  | call name arguments => exact turns_beginCall hR name arguments
  | _ =>
    rw [hclause] at hplain
    cases hplain

theorem turns_begin (hR : Turns host rules R) {task : Task} (h : task.Obeys rules host)
    (hstatement : ∀ node u, task ≠ .statement node u)
    (hplain : ∀ node u, task = .inside node u → u.clause.isPlain = false) :
    R w (begin host env calls ctx w task).1 := by
  cases task with
  | statement node s => exact absurd rfl (hstatement node s)
  | inside node s => exact turns_beginInside hR h (hplain node s rfl)
  | block whole chain statements =>
    unfold begin beginBlock
    cases statements with
    | nil => exact hR.refl w
    | cons first rest =>
      dsimp only
      split
      · exact hR.timedOut w _ ctx
      · split <;> exact hR.refl w
  | passes each body n => exact turns_beginPasses hR h n
  | call name values =>
    unfold begin beginFunction
    dsimp only
    split
    · split
      · exact hR.refl w
      · exact hR.entered w ctx _ values
    · exact hR.refl w

theorem turns_resume (hR : Turns host rules R) {pending : Pending} (h : pending.Obeys rules host)
    (ended : Ended) : R w (pending.resume env ctx w ended).1 := by
  cases pending with
  | closing node line start =>
    obtain ⟨s, hmay⟩ := h
    exact hR.ended w ctx _ _ hmay
  | branch => exact hR.refl w
  | loop => exact hR.exitsLoop w ctx
  | rest whole clause statements =>
    rcases ended with fault | ⟨outcome, taken⟩
    · exact hR.refl w
    · dsimp only [Pending.resume]
      split <;> exact hR.refl w
  | pass each body n =>
    rcases ended with fault | ⟨outcome, taken⟩
    · exact hR.refl w
    · cases outcome <;> exact hR.refl w
  | call caller =>
    rcases ended with fault | ⟨outcome, taken⟩
    · exact hR.refl w
    · exact hR.left w caller ctx

theorem beginInside_of_isPlain (node : Nat) {u : Statement} (h : u.clause.isPlain = true) (w : World) :
    beginInside host env calls ctx node u w =
      ((result host (plainRun env u.clause u.source ctx) w).1,
        .next (.give (result host (plainRun env u.clause u.source ctx) w).2)) := by
  unfold beginInside
  cases hclause : u.clause with
  | condition | otherwise | event | command | function | loop | call =>
    rw [hclause] at h
    cases h
  | _ => rfl

theorem turns_step (hR : Turns host rules R) {s t : State} (h : s.Obeys rules host)
    (hstep : step host env s = some t) :
    R s.world t.world ∨ (∃ node u, rules.may node u ∧ Starts env node u s t) ∨
      ∃ node u, rules.may node u ∧ Performs host env node u s t := by
  obtain ⟨hcontrol, hstack⟩ := h
  rcases step_cases hstep with ⟨task, hrun, hmove⟩ | ⟨ended, pending, stack, -, hpending, rfl⟩
  · rw [hrun] at hcontrol
    by_cases hstatement : ∃ node u, task = .statement node u
    · obtain ⟨node, u, rfl⟩ := hstatement
      exact .inr (.inl ⟨node, u, hcontrol, hrun, hmove⟩)
    by_cases hplain : ∃ node u, task = .inside node u ∧ u.clause.isPlain = true
    · obtain ⟨node, u, rfl, hu⟩ := hplain
      refine .inr (.inr ⟨node, u, hcontrol, hrun, hu, ?_⟩)
      have hbegin : begin host env s.calls s.ctx s.world (.inside node u) = _ :=
        beginInside_of_isPlain node hu s.world
      rw [hbegin] at hmove
      exact hmove
    · refine .inl ?_
      have hturns : R s.world (begin host env s.calls s.ctx s.world task).1 := by
        refine turns_begin hR hcontrol (fun node u htask => hstatement ⟨node, u, htask⟩) fun node u htask =>
          Bool.eq_false_iff.2 fun hu => ?_
        exact hplain ⟨node, u, htask, hu⟩
      rcases hbegin : begin host env s.calls s.ctx s.world task with
        ⟨w, control | ⟨pending, calls', ctx', inner⟩⟩ <;>
      · rw [hbegin] at hmove hturns
        subst hmove
        exact hturns
  · rw [hpending] at hstack
    exact .inl (turns_resume hR (hstack pending List.mem_cons_self) ended)

theorem moves_step (hR : Moves host rules R) {s t : State} (h : s.Obeys rules host)
    (hstep : step host env s = some t) :
    R s.world t.world ∨ ∃ node u, rules.may node u ∧ Performs host env node u s t := by
  rcases turns_step hR.toTurns h hstep with hkept | ⟨node, u, hmay, -, rfl⟩ | hperforms
  · exact .inl hkept
  · exact .inl (hR.started s.world s.ctx hmay)
  · exact .inr hperforms

/-- A relation that plain statements keep as well holds from the start of a run of the machine on. -/
theorem moves_of_reaches (hR : Moves host rules R)
    (hplain : ∀ node u ctx, rules.may node u → u.clause.isPlain = true →
      Keeps host R (plainRun env u.clause u.source ctx))
    {s t : State} (h : s.Obeys rules host) (hreaches : Reaches host env s t) : R s.world t.world := by
  induction hreaches with
  | refl => exact hR.refl _
  | tail hbefore hstep ih =>
    refine hR.trans ih ?_
    rcases moves_step hR (obeys_of_reaches h hbefore) hstep with hmoves | ⟨node, u, hmay, -, hu, rfl⟩
    · exact hmoves
    · exact hplain node u _ hmay hu _

end

theorem asks_takes (ctx : Nat) (test : Option String) : Asks (takes ctx test) := by
  cases test with
  | none => exact .pure true
  | some condition => exact asks_holds ctx condition

theorem Rules.Loops.asks {each : Passes} {body : List (Nat × Statement)} (h : rules.Loops host each body)
    (n : Nat) : Asks (each n) := by
  obtain ⟨node, s, word, source, argument, ctx, header, w, -, -, -, hheader, heach⟩ := h
  exact asks_passesAt (returns_passesAt hheader w each heach) n

/-- A relation that expressions and actions keep, and that holds across the ends of statements and across new
contexts. -/
theorem turns_of_frame {R : World → World → Prop} (hR : Frame R)
    (ended : ∀ w {node s} ctx ms outcome, rules.may node s →
      R w ((w.changeScript env.script fun s => s.recordStatement node ms).note
        (.ended env.script node ctx outcome)))
    (timedOut : ∀ w node ctx, R w (w.note (.timedOut env.script node ctx)))
    (cloned : ∀ w ctx, R w (w.changeMemory fun m => m.cloneContext ctx)) : Turns host rules R :=
  have changed : ∀ (w : World) ctx f, R w (w.changeContext ctx f) := fun w ctx f =>
    hR.changeMemory w (fun m => m.changeContext ctx f) (Table.size_set _ _ _)
  { refl := hR.refl
    trans := hR.trans
    ended := ended
    timedOut := timedOut
    tested := fun ctx _ _ => hR.asks (asks_takes ctx _)
    header := fun h => hR.asks (asks_passesOf h)
    pass := fun n h => hR.asks (h.asks n)
    arguments := fun _ _ => hR.access _
    entersLoop := fun w ctx => changed w ctx _
    exitsLoop := fun w ctx => changed w ctx _
    bound := fun w ctx _ => changed w ctx _
    entered := fun w ctx _ _ => hR.trans (cloned w ctx) (changed _ _ _)
    left := fun w caller child => by
      unfold leaveFunction
      split
      · exact changed w caller _
      · exact hR.refl w }

/-! ## Statements of a tree -/

/-- Only statements of a tree are carried out, under their numbers. -/
def Rules.inTree {tree : List Statement} (h : FunctionsPlaced env tree) : Rules env where
  may node s := (walkAll tree)[node]? = some s
  block _ statements := AllPlaced tree statements
  first h _ := h _ List.mem_cons_self
  skipped h _ := fun p hp => h p (List.mem_cons_of_mem _ hp)
  after h _ _ := fun p hp => h p (List.mem_cons_of_mem _ hp)
  body := allPlaced_bodyOf
  called := fun {name node function} => h name node function

/-! ## Invocations -/

/-- What an invocation of a script is asked to do: to run some of its statements, or to call a function. -/
inductive Request where
  | execute (selection : Selection)
  | call (name : String) (values : List Value)

namespace Request

def run (config : Config) (script ctx : Nat) : Request → Run Outcome
  | execute selection => Run.execute config script ctx selection
  | call name values => Run.callFunction config script ctx name values

/-- The task that the machine starts with. -/
def task (tree : List Statement) : Request → Task
  | execute selection => .block true none (chosen selection tree)
  | call name values => .call name values

/-- A request is refused at once: there is no number for the time budget, or a disabled script is to be
executed. -/
def Refused (host : Host) (config : Config) (script ctx : Nat) (request : Request) (w : World) : Prop :=
  (config.maxExecutionTime? = none ∧
    result host (request.run config script ctx) w = (w, .error .quotientTooLarge)) ∨
  ((w.script script).enabled = false ∧ (∃ selection, request = .execute selection) ∧
    result host (request.run config script ctx) w =
      (w, .ok (.failed s!"Script '{(w.script script).name}' is disabled")))

/-- The machine that carries a request out: for the script, with its functions. -/
def Served (host : Host) (config : Config) (script ctx : Nat) (request : Request) (w : World)
    (env : Invocation) : Prop :=
  env.script = script ∧ env.config = config ∧ env.functions = (w.script script).functions ∧
    EndsAs host env ctx (request.task (w.script script).statements) (request.run config script ctx) w

/-- An invocation ends at once, or as the machine does with a deadline by the time budget. -/
theorem ends_within (host : Host) (config : Config) (script ctx : Nat) (request : Request) (w : World) :
    request.Refused host config script ctx w ∨
      ∃ budget, config.maxExecutionTime? = some budget ∧ request.Served host config script ctx w
        ⟨script, config, (w.script script).functions, w.clock + budget⟩ := by
  have hinvocation := result_invocation host config script w
  cases hbudget : config.maxExecutionTime? with
  | none =>
    rw [hbudget] at hinvocation
    refine .inl ?_
    cases request with
    | execute selection =>
      by_cases henabled : (w.script script).enabled = true
      · refine .inl ⟨hbudget, ?_⟩
        unfold run
        rw [result_execute host config script ctx selection henabled, result_bind_error hinvocation]
      · have hdisabled := Bool.eq_false_iff.2 henabled
        exact .inr ⟨hdisabled, ⟨selection, rfl⟩,
          result_execute_of_disabled host config ctx selection hdisabled⟩
    | call name values =>
      refine .inl ⟨hbudget, ?_⟩
      unfold run
      rw [result_callFunction, result_bind_error hinvocation]
  | some budget =>
    rw [hbudget] at hinvocation
    cases request with
    | execute selection =>
      by_cases henabled : (w.script script).enabled = true
      · refine .inr ⟨budget, rfl, rfl, rfl, rfl, ?_⟩
        unfold EndsAs run
        rw [result_execute host config script ctx selection henabled, result_bind_ok hinvocation, selected_eq]
        obtain ⟨w', outcome, hended, -⟩ := exists_ok_block host
          ⟨script, config, (w.script script).functions, w.clock + budget⟩ 0 ctx true none
          (chosen selection (w.script script).statements) w
        exact endsAs_of_plainly rfl ⟨w', outcome, hended⟩
      · have hdisabled := Bool.eq_false_iff.2 henabled
        exact .inl (.inr ⟨hdisabled, ⟨selection, rfl⟩,
          result_execute_of_disabled host config ctx selection hdisabled⟩)
    | call name values =>
      refine .inr ⟨budget, rfl, rfl, rfl, rfl, ?_⟩
      unfold EndsAs run
      rw [result_callFunction, result_bind_ok hinvocation]
      exact endsAs_of_plainly rfl (exists_ok_call host _ 0 ctx name values w)

theorem ends (host : Host) (config : Config) (script ctx : Nat) (request : Request) (w : World) :
    request.Refused host config script ctx w ∨ ∃ env, request.Served host config script ctx w env :=
  (request.ends_within host config script ctx w).imp_right fun ⟨_, _, hserved⟩ => ⟨_, hserved⟩

/-- What comes of an invocation that the machine carries out: what the machine comes to, with at most an error
entered in the script. -/
theorem Served.ended {config : Config} {script ctx : Nat} {request : Request} {w : World}
    (h : request.Served host config script ctx w env) :
    ∃ outcome w' w'', Reaches host env (start ctx (request.task (w.script script).statements) w)
        ⟨0, ctx, .give (.ok (outcome, none)), [], w'⟩ ∧
      result host (request.run config script ctx) w =
        (w'', .ok (finished (w'.memory.context ctx).cancelled outcome)) ∧
      (w'' = w' ∨ ∃ message, w'' = w'.changeScript script fun s => s.addError message) := by
  obtain ⟨rfl, -, -, outcome, w', final, w'', ⟨hreaches, -⟩, hfinish, hended⟩ := h
  refine ⟨outcome, w', w'', hreaches, ?_⟩
  rw [hended]
  unfold finish at hfinish
  rw [result_bind_ok (result_look w')] at hfinish
  cases outcome with
  | error message fault line =>
    cases hfinish
    exact ⟨rfl, .inr ⟨_, rfl⟩⟩
  | _ =>
    cases hfinish
    exact ⟨rfl, .inl rfl⟩

theorem Refused.world_eq {config : Config} {script ctx : Nat} {request : Request} {w : World}
    (h : request.Refused host config script ctx w) : (result host (request.run config script ctx) w).1 = w := by
  rcases h with ⟨-, hended⟩ | ⟨-, -, hended⟩ <;> rw [hended]

theorem obeys_inTree {tree : List Statement} (h : FunctionsPlaced env tree) (request : Request) :
    (request.task tree).Obeys (Rules.inTree h) host := by
  cases request with
  | execute selection => exact allPlaced_chosen selection tree
  | call name values => trivial

end Request

end EventScript.Machine
