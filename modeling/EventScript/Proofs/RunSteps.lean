import EventScript.Proofs.Machine
import EventScript.Proofs.MemorySteps

/-!
What runs do to the world.

A run changes the memory by the steps of accesses and in no other way, whatever the host answers. This goes by
the moves of the machine: a move keeps the values that are at hand, which are the arguments of a call that is
about to be made and what the passes of a loop bind.

Main definitions:
* `World.Goes`, `Run.Goes`: a world after another by steps, and a run that goes by steps;
* `Clause.Stores`: clauses that store only values of a kind.

Main facts:
* `Run.goes_of_asks`: runs that only ask go by steps;
* `Machine.goes_step`, `Machine.goes_task`: moves and tasks go by steps;
* `Run.goes_execute`, `Run.goes_callFunction`: invocations do.
-/

namespace EventScript

set_option autoImplicit false

open Statement

/-- A world that comes from another by steps of the memory. -/
def World.Goes (stores : Memory → Value → Prop) (w w' : World) : Prop :=
  Memory.Steps stores w.memory w'.memory

section

variable {stores : Memory → Value → Prop} {w w' w'' : World}

theorem World.Goes.refl (w : World) : w.Goes stores w := Relation.ReflTransGen.refl

theorem World.Goes.trans (h : w.Goes stores w') (h' : w'.Goes stores w'') : w.Goes stores w'' :=
  Relation.ReflTransGen.trans h h'

theorem World.goes_of_eq (hmemory : w'.memory = w.memory) : w.Goes stores w' := by
  unfold World.Goes
  rw [hmemory]
  exact .refl

theorem World.goes_of_step (hmemory : Memory.Step stores w.memory w'.memory) : w.Goes stores w' :=
  Relation.ReflTransGen.single hmemory

theorem World.Goes.closed (hs : Memory.Storable stores) (h : w.Goes stores w') (hw : w.memory.Closed) :
    w'.memory.Closed :=
  Memory.Steps.closed hs hw h

end

namespace Run

/-- A run goes by steps, and what it ends with is good in the memory that it leaves. -/
def Goes {α : Type} (stores : Memory → Value → Prop) (host : Host) (run : Run α) (w : World)
    (good : Memory → α → Prop) : Prop :=
  w.Goes stores (result host run w).1 ∧
    ∀ a, (result host run w).2 = .ok a → good (result host run w).1.memory a

section

variable {α β : Type} {stores : Memory → Value → Prop} {host : Host} {w : World}

theorem goes_pure {good : Memory → α → Prop} {a : α} (h : good w.memory a) :
    Goes stores host (pure a) w good := by
  refine ⟨.refl w, ?_⟩
  rintro _ ⟨⟩
  exact h

theorem goes_throw (fault : Fault) (good : Memory → α → Prop) : Goes stores host (throw fault) w good :=
  ⟨.refl w, nofun⟩

theorem goes_bind {run : Run α} {next : α → Run β} {mid : Memory → α → Prop} {good : Memory → β → Prop}
    (h : Goes stores host run w mid)
    (hnext : ∀ w' a, w.Goes stores w' → mid w'.memory a → Goes stores host (next a) w' good) :
    Goes stores host (run >>= next) w good := by
  obtain ⟨hgoes, hmid⟩ := h
  unfold Goes
  rw [result_bind]
  cases ha : (result host run w).2 with
  | ok a =>
    obtain ⟨hgoes', hgood⟩ := hnext _ a hgoes (hmid a ha)
    exact ⟨hgoes.trans hgoes', hgood⟩
  | error fault => exact ⟨hgoes, nofun⟩

theorem goes_look_bind {next : World → Run β} {good : Memory → β → Prop}
    (h : Goes stores host (next w) w good) : Goes stores host (look >>= next) w good := by
  unfold Goes
  rw [result_bind_ok (result_look w)]
  exact h

theorem goes_access {a : Access α} {good : Memory → α → Prop} (h : Memory.Goes stores a w.memory good) :
    Goes stores host (access a) w good := by
  unfold Goes
  rw [result_access]
  exact h

theorem goes_call (call : HostCall) (w : World) :
    Goes stores host (Run.call call) w fun _ _ => True := by
  unfold Goes
  rw [result_call]
  refine ⟨?_, fun _ _ => trivial⟩
  unfold World.serve
  dsimp only
  split
  · exact World.goes_of_step (.waited _)
  · exact World.goes_of_eq rfl

theorem goes_of_asks (host : Host) (hs : Memory.Storable stores) {run : Run α} (h : Asks run) {w : World}
    (hw : w.memory.Closed) : Goes stores host run w fun _ _ => True := by
  induction h generalizing w with
  | pure a => exact goes_pure trivial
  | throw fault => exact goes_throw fault _
  | looked _ _ ihnext => exact ihnext w hw
  | read ctx reference => exact goes_access ((Memory.goes_read hs hw ctx reference).mono fun _ _ _ => trivial)
  | rendered ctx text => exact goes_access (Memory.goes_render hs hw ctx text)
  | renderedAll ctx texts =>
    refine goes_access (Memory.goes_mapM_any (fun m' text hsteps => ?_) texts)
    exact Memory.goes_render hs (hsteps.closed hs hw) ctx text
  | called call => exact goes_call call w
  | tested ctx condition => exact ⟨World.goes_of_eq rfl, fun _ _ => trivial⟩
  | bind _ _ ih ihnext =>
    exact goes_bind (ih hw) fun w' a hgoes _ => ihnext a (hgoes.closed hs hw)

end

end Run

/-! ## What clauses store -/

/-- The value of an expression is always of a kind. -/
def Yields (stores : Memory → Value → Prop) (text : String) : Prop :=
  ∀ (ctx : Nat) (m : Memory), m.Closed →
    ∀ value, ((evaluate ctx text).run.run m).1 = .ok value → stores ((evaluate ctx text).run.run m).2 value

/-- What a clause puts into the store is always of a kind. A list variable that is set to a list takes over a
copy, so there it does not matter. -/
def Clause.Stores (stores : Memory → Value → Prop) : Clause → Prop
  | variableSet reference value =>
    Namespace.of reference ≠ .list → Namespace.of reference ≠ .local → Yields stores value
  | variableAdd reference value => Namespace.of reference ≠ .local → Yields stores value
  | _ => True

/-- What a statement and all in its block put into the store is of a kind. -/
def Statement.Stores (stores : Memory → Value → Prop) (s : Statement) : Prop :=
  ∀ t ∈ walk s, t.clause.Stores stores

section

variable {stores : Memory → Value → Prop}

theorem Statement.Stores.self {s : Statement} (h : s.Stores stores) : s.clause.Stores stores :=
  h s (by simp [walk_eq])

theorem mem_walk_of_mem_walkAll {tree : List Statement} {s t : Statement} (hs : s ∈ tree) (ht : t ∈ walk s) :
    t ∈ walkAll tree := by
  induction tree with
  | nil => cases hs
  | cons first rest ih =>
    rw [walkAll_cons, ← List.cons_append, ← walk_eq, List.mem_append]
    rcases List.mem_cons.1 hs with rfl | hs
    · exact .inl ht
    · exact .inr (ih hs)

theorem Statement.Stores.inner {s t : Statement} (h : s.Stores stores) (ht : t ∈ s.block) :
    t.Stores stores := by
  intro u hu
  refine h u ?_
  rw [walk_eq]
  exact List.mem_cons_of_mem _ (mem_walk_of_mem_walkAll ht hu)

end

/-! ## Statements and loops -/

section

variable {stores : Memory → Value → Prop} {host : Host} {w : World}

namespace Run

theorem goes_plainly {run : Run Outcome} (h : Goes stores host run w fun _ _ => True) :
    Goes stores host (plainly run) w fun _ _ => True :=
  goes_bind h fun _ _ _ _ => goes_pure trivial

theorem goes_access_then {α : Type} {a : Access α} {good : Memory → α → Prop}
    (h : Memory.Goes stores a w.memory good) (outcome : α → Outcome) :
    Goes stores host (access a >>= fun x => pure (outcome x)) w fun _ _ => True :=
  goes_bind (goes_access h) fun _ _ _ _ => goes_pure trivial

theorem goes_evaluate (hs : Memory.Storable stores) (hw : w.memory.Closed) (ctx : Nat) (text : String) :
    Goes stores host (access (evaluate ctx text)) w fun m value =>
      m.lists.Has value ∧ (Yields stores text → stores m value) := by
  obtain ⟨hsteps, hgood⟩ := Memory.goes_evaluate hs hw ctx text
  exact goes_access ⟨hsteps, fun value hvalue => ⟨(hgood value hvalue).1, fun h => h ctx _ hw value hvalue⟩⟩

theorem goes_plainRun (host : Host) (hs : Memory.Storable stores) (hw : w.memory.Closed)
    (env : Invocation) {clause : Clause} (hplain : clause.isPlain = true) (h : clause.Stores stores)
    (source : String) (ctx : Nat) : Goes stores host (plainRun env clause source ctx) w fun _ _ => True := by
  unfold plainRun
  cases clause with
  | condition | otherwise | event | command | function | loop | call => cases hplain
  | variableSet reference value =>
    refine goes_plainly (goes_bind (goes_evaluate hs hw ctx value) ?_)
    rintro w' v hgoes ⟨hhas, hstores⟩
    refine goes_access_then (Memory.goes_assign hs (hgoes.closed hs hw) hhas ?_) _
    exact fun hlist hlocal => hstores (h hlist hlocal)
  | variableAdd reference value =>
    refine goes_plainly (goes_bind (goes_evaluate hs hw ctx value) ?_)
    rintro w' v hgoes ⟨hhas, hstores⟩
    refine goes_access_then (Memory.goes_increase hs (hgoes.closed hs hw) hhas ?_) _
    exact fun hlocal => hstores (h hlocal)
  | variableDelete reference =>
    exact goes_plainly (goes_access_then (Memory.goes_remove hs hw ctx reference) _)
  | sendMessage message target =>
    exact goes_plainly (goes_of_asks host hs (asks_sendMessage ctx message target) hw)
  | broadcast message => exact goes_plainly (goes_of_asks host hs (asks_broadcast ctx message) hw)
  | giveItem target amount item =>
    exact goes_plainly (goes_of_asks host hs (asks_giveItem ctx target amount item) hw)
  | teleport target location =>
    exact goes_plainly (goes_of_asks host hs (asks_teleport ctx target location) hw)
  | animate animation parameters =>
    exact goes_plainly (goes_of_asks host hs (asks_animate ctx animation parameters) hw)
  | action => exact goes_plainly (goes_access_then (Memory.goes_render hs hw ctx source) _)
  | returnValue value =>
    cases value with
    | none => exact goes_plainly (goes_pure trivial)
    | some value => exact goes_plainly (goes_access_then (Memory.goes_evaluate hs hw ctx value) _)
  | breakLoop | continueLoop => exact goes_plainly (goes_pure trivial)
  | cancelEvent =>
    refine goes_plainly ⟨World.goes_of_step (.changed ctx _ ?_), fun _ _ => trivial⟩
    exact hw.locals ctx

theorem goes_passes (host : Host) (hs : Memory.Storable stores) (hw : w.memory.Closed) {ctx : Nat}
    {each : Passes} (h : PassesAt ctx each) (n : Nat) :
    Goes stores host (each n) w fun m found =>
      ∀ bindings, found = some bindings → ∀ b ∈ bindings, m.lists.Has b.2 := by
  cases h with
  | known each hknown =>
    exact goes_pure fun bindings hbindings b hb => Memory.has_of_plain _ (hknown n bindings hbindings b hb)
  | entries id size =>
    refine goes_look_bind ?_
    dsimp only
    split
    · exact goes_throw _ _
    · refine goes_pure fun bindings hbindings b hb => ?_
      obtain ⟨⟨index, value⟩, hentry, rfl⟩ := Option.map_eq_some_iff.1 hbindings
      rcases List.mem_cons.1 hb with rfl | hb
      · exact Memory.has_of_plain _ rfl
      · rw [List.mem_singleton.1 hb]
        exact hw.lists id value (List.mem_map.2 ⟨_, List.mem_of_getElem? hentry, rfl⟩)
  | whileHolds condition =>
    refine goes_bind (goes_of_asks host hs (asks_holds ctx condition) hw) fun w' holds _ _ => goes_pure ?_
    intro bindings hbindings b hb
    split at hbindings
    · cases hbindings
      cases hb
    · cases hbindings

end Run

theorem World.goes_bound (hw : w.memory.Closed) (ctx : Nat) {bindings : Bindings}
    (h : ∀ b ∈ bindings, w.memory.lists.Has b.2) : w.Goes stores (w.bound ctx bindings) :=
  World.goes_of_step (.changed ctx _ (Memory.has_foldl_setLocal (hw.locals ctx) h))

end

theorem of_mem_bindParameters {P : Value → Prop} (hnone : P .none) {parameters : List String}
    {values : List Value} (h : ∀ value ∈ values, P value) :
    ∀ b ∈ bindParameters parameters values, P b.2 := by
  induction parameters generalizing values with
  | nil => exact nofun
  | cons parameter parameters ih =>
    cases values with
    | nil =>
      intro b hb
      rcases List.mem_cons.1 hb with rfl | hb
      · exact hnone
      · exact ih (fun _ hv => absurd hv List.not_mem_nil) b hb
    | cons value values =>
      intro b hb
      rcases List.mem_cons.1 hb with rfl | hb
      · exact h value List.mem_cons_self
      · exact ih (fun v hv => h v (List.mem_cons_of_mem _ hv)) b hb

/-! ## Moves of the machine -/

/-- What the functions that can be called put into the store is of a kind. -/
def Invocation.Stores (stores : Memory → Value → Prop) (env : Invocation) : Prop :=
  ∀ name node function, env.functions.get? name = some (node, function) → function.Stores stores

namespace Machine

open Run

/-- What statements put into the store is of a kind. -/
def StoresAll (stores : Memory → Value → Prop) (statements : List (Nat × Statement)) : Prop :=
  ∀ p ∈ statements, p.2.Stores stores

/-- A task stores what it may, and the arguments of a call are there. -/
def Task.Good (stores : Memory → Value → Prop) (m : Memory) : Task → Prop
  | statement _ s | inside _ s => s.Stores stores
  | block _ _ statements => StoresAll stores statements
  | passes each body _ => (∃ ctx, PassesAt ctx each) ∧ StoresAll stores body
  | call _ values => ∀ value ∈ values, m.lists.Has value

def Pending.Good (stores : Memory → Value → Prop) : Pending → Prop
  | rest _ _ statements => StoresAll stores statements
  | pass each body _ => (∃ ctx, PassesAt ctx each) ∧ StoresAll stores body
  | _ => True

def Control.Good (stores : Memory → Value → Prop) (m : Memory) : Control → Prop
  | run task => task.Good stores m
  | give _ => True

def Move.Good (stores : Memory → Value → Prop) (m : Memory) : Move → Prop
  | next control => control.Good stores m
  | push pending _ _ task => pending.Good stores ∧ task.Good stores m

section

variable {stores : Memory → Value → Prop} {host : Host} {env : Invocation} {calls ctx : Nat} {w : World}

theorem storesAll_bodyOf {s : Statement} (h : s.Stores stores) (node : Nat) :
    StoresAll stores (bodyOf node s) := by
  intro p hp
  refine h.inner ?_
  rw [← map_snd_numberFrom (node + 1) s.block]
  exact List.mem_map_of_mem hp

theorem goes_beginBranch (hs : Memory.Storable stores) (hw : w.memory.Closed) (test : Option String)
    {body : List (Nat × Statement)} (hbody : StoresAll stores body) :
    w.Goes stores (beginBranch host calls ctx test body w).1 ∧
      (beginBranch host calls ctx test body w).2.Good stores
        (beginBranch host calls ctx test body w).1.memory := by
  have hasks : Asks (takes ctx test) := by
    cases test with
    | none => exact .pure true
    | some condition => exact asks_holds ctx condition
  obtain ⟨hgoes, -⟩ := goes_of_asks host hs hasks hw
  unfold beginBranch
  rcases htakes : result host (takes ctx test) w with ⟨w', fault | _ | _⟩
  · rw [htakes] at hgoes
    exact ⟨hgoes, trivial⟩
  · rw [htakes] at hgoes
    exact ⟨hgoes, trivial⟩
  · rw [htakes] at hgoes
    exact ⟨hgoes, trivial, hbody⟩

theorem goes_beginLoop (hs : Memory.Storable stores) (hw : w.memory.Closed) (source : LoopSource)
    (argument : String) {body : List (Nat × Statement)} (hbody : StoresAll stores body) :
    w.Goes stores (beginLoop host calls ctx source argument body w).1 ∧
      (beginLoop host calls ctx source argument body w).2.Good stores
        (beginLoop host calls ctx source argument body w).1.memory := by
  unfold beginLoop
  cases hpasses : passesOf ctx source argument with
  | none => exact ⟨.refl w, trivial⟩
  | some header =>
    dsimp only
    have hentered : w.Goes stores (w.changeContext ctx Context.enterLoop) :=
      World.goes_of_step (.changed ctx Context.enterLoop (hw.locals ctx))
    have hw' := hentered.closed hs hw
    obtain ⟨hgoes, -⟩ := goes_of_asks host hs (asks_passesOf hpasses) hw'
    have heach : Returns host header (PassesAt ctx) := returns_passesAt hpasses
    have hat := heach (w.changeContext ctx Context.enterLoop)
    rcases hheader : result host header (w.changeContext ctx Context.enterLoop) with ⟨w'', fault | each⟩
    · rw [hheader] at hgoes
      have hleft : w''.Goes stores (w''.changeContext ctx Context.exitLoop) :=
        World.goes_of_step (.changed ctx Context.exitLoop ((hgoes.closed hs hw').locals ctx))
      exact ⟨hentered.trans (hgoes.trans hleft), trivial⟩
    · rw [hheader] at hgoes hat
      exact ⟨hentered.trans hgoes, trivial, ⟨ctx, hat each rfl⟩, hbody⟩

theorem goes_beginCall (hs : Memory.Storable stores) (hw : w.memory.Closed) (name : String)
    (arguments : List String) :
    w.Goes stores (beginCall host env ctx name arguments w).1 ∧
      (beginCall host env ctx name arguments w).2.Good stores
        (beginCall host env ctx name arguments w).1.memory := by
  unfold beginCall
  split
  · have hvalues : Goes stores host (Run.access (arguments.mapM (evaluate ctx))) w fun m values =>
        ∀ value ∈ values, m.lists.Has value := by
      refine goes_access (Memory.goes_mapM ?_ ?_ arguments)
      · exact fun hsteps hvalue => hsteps.has hvalue
      · intro m text hsteps
        exact (Memory.goes_evaluate hs (hsteps.closed hs hw) ctx text).mono fun _ _ h => h.1
    unfold Goes at hvalues
    rcases hresult : result host (Run.access (arguments.mapM (evaluate ctx))) w with ⟨w', fault | values⟩
    · rw [hresult] at hvalues
      exact ⟨hvalues.1, trivial⟩
    · rw [hresult] at hvalues
      exact ⟨hvalues.1, hvalues.2 values rfl⟩
  · exact ⟨.refl w, trivial⟩

theorem goes_beginInside (hs : Memory.Storable stores) (hw : w.memory.Closed) (node : Nat) {s : Statement}
    (h : s.Stores stores) :
    w.Goes stores (beginInside host env calls ctx node s w).1 ∧
      (beginInside host env calls ctx node s w).2.Good stores
        (beginInside host env calls ctx node s w).1.memory := by
  have hbody := storesAll_bodyOf h node
  have hself := h.self
  unfold beginInside
  cases hclause : s.clause with
  | condition test => exact goes_beginBranch hs hw (some test) hbody
  | otherwise test => exact goes_beginBranch hs hw test hbody
  | event | command | function => exact ⟨.refl w, hbody⟩
  | loop word source argument => exact goes_beginLoop hs hw source argument hbody
  | call name arguments => exact goes_beginCall hs hw name arguments
  | _ =>
    rw [hclause] at hself
    dsimp only
    exact ⟨(goes_plainRun host hs hw env rfl hself s.source ctx).1, trivial⟩

theorem goes_beginPasses (hs : Memory.Storable stores) (hw : w.memory.Closed) {each : Passes}
    (heach : ∃ ctx, PassesAt ctx each) {body : List (Nat × Statement)} (hbody : StoresAll stores body)
    (n : Nat) :
    w.Goes stores (beginPasses host env calls ctx each body n w).1 ∧
      (beginPasses host env calls ctx each body n w).2.Good stores
        (beginPasses host env calls ctx each body n w).1.memory := by
  obtain ⟨loopCtx, hat⟩ := heach
  have hpass := goes_passes host hs hw hat n
  unfold Goes at hpass
  unfold beginPasses
  rcases hresult : result host (each n) w with ⟨w', fault | found⟩
  · rw [hresult] at hpass
    exact ⟨hpass.1, trivial⟩
  · rw [hresult] at hpass
    obtain ⟨hgoes, hbindings⟩ := hpass
    cases found with
    | none => exact ⟨hgoes, trivial⟩
    | some bindings =>
      dsimp only
      split
      · have hbound : w'.Goes stores (w'.bound ctx bindings) :=
          World.goes_bound (hgoes.closed hs hw) ctx (hbindings _ rfl bindings rfl)
        exact ⟨hgoes.trans hbound, ⟨⟨loopCtx, hat⟩, hbody⟩, hbody⟩
      · exact ⟨hgoes, trivial⟩

theorem goes_beginBlock (whole : Bool) (chain : Chain) {statements : List (Nat × Statement)}
    (h : StoresAll stores statements) :
    w.Goes stores (beginBlock env calls ctx whole chain statements w).1 ∧
      (beginBlock env calls ctx whole chain statements w).2.Good stores
        (beginBlock env calls ctx whole chain statements w).1.memory := by
  unfold beginBlock
  cases statements with
  | nil => exact ⟨.refl w, trivial⟩
  | cons first rest =>
    have hrest : StoresAll stores rest := fun p hp => h p (List.mem_cons_of_mem _ hp)
    dsimp only
    split
    · exact ⟨World.goes_of_eq rfl, trivial⟩
    · split
      · exact ⟨.refl w, hrest⟩
      · exact ⟨.refl w, hrest, h first List.mem_cons_self⟩

theorem goes_enterFunction (hs : Memory.Storable stores) (hw : w.memory.Closed) (function : Statement)
    {values : List Value} (h : ∀ value ∈ values, w.memory.lists.Has value) :
    w.Goes stores (enterFunction ctx function values w) := by
  have hcloned : w.Goes stores (w.changeMemory fun m => m.cloneContext ctx) :=
    Memory.steps_cloneContext stores w.memory ctx
  refine hcloned.trans (World.goes_bound (hcloned.closed hs hw) _ fun b hb => ?_)
  exact Memory.Steps.has hcloned (of_mem_bindParameters (Memory.has_of_plain _ rfl) h b hb)

theorem goes_begin (host : Host) (calls ctx : Nat) (hs : Memory.Storable stores)
    (henv : env.Stores stores) (hw : w.memory.Closed) (task : Task) (h : task.Good stores w.memory) :
    w.Goes stores (begin host env calls ctx w task).1 ∧
      (begin host env calls ctx w task).2.Good stores (begin host env calls ctx w task).1.memory := by
  cases task with
  | statement node s => exact ⟨World.goes_of_eq rfl, trivial, h⟩
  | inside node s => exact goes_beginInside hs hw node h
  | block whole chain statements => exact goes_beginBlock whole chain h
  | passes each body n => exact goes_beginPasses hs hw h.1 h.2 n
  | call name values =>
    unfold begin beginFunction
    dsimp only
    split
    · split
      · exact ⟨.refl w, trivial⟩
      · rename_i node function hfunction
        exact ⟨goes_enterFunction hs hw function h, trivial, henv name node function hfunction⟩
    · exact ⟨.refl w, trivial⟩

theorem goes_resume (hw : w.memory.Closed) {pending : Pending}
    (h : pending.Good stores) (ended : Ended) :
    w.Goes stores (pending.resume env ctx w ended).1 ∧
      (pending.resume env ctx w ended).2.Good stores (pending.resume env ctx w ended).1.memory := by
  cases pending with
  | closing node line start => exact ⟨World.goes_of_eq rfl, trivial⟩
  | branch => exact ⟨.refl w, trivial⟩
  | loop => exact ⟨World.goes_of_step (.changed ctx Context.exitLoop (hw.locals ctx)), trivial⟩
  | rest whole clause statements =>
    rcases ended with fault | ⟨outcome, taken⟩
    · exact ⟨.refl w, trivial⟩
    · simp only [Pending.resume]
      split
      · exact ⟨.refl w, trivial⟩
      · exact ⟨.refl w, h⟩
  | pass each body n =>
    rcases ended with fault | ⟨outcome, taken⟩
    · exact ⟨.refl w, trivial⟩
    · cases outcome with
      | success | continued => exact ⟨.refl w, h⟩
      | _ => exact ⟨.refl w, trivial⟩
  | call caller =>
    rcases ended with fault | ⟨outcome, taken⟩
    · exact ⟨.refl w, trivial⟩
    · refine ⟨?_, trivial⟩
      simp only [Pending.resume, leaveFunction]
      split
      · exact World.goes_of_step (.changed caller _ (hw.locals caller))
      · exact .refl w

/-! ## Runs of the machine -/

/-- What is at hand in a state is there, and only what may be is stored from it on. -/
structure State.Good (stores : Memory → Value → Prop) (s : State) : Prop where
  closed : s.world.memory.Closed
  control : s.control.Good stores s.world.memory
  stack : ∀ pending ∈ s.stack, pending.Good stores

theorem goes_step (hs : Memory.Storable stores) (henv : env.Stores stores) {s t : State}
    (h : s.Good stores) (hstep : step host env s = some t) :
    s.world.Goes stores t.world ∧ t.Good stores := by
  obtain ⟨hclosed, hcontrol, hstack⟩ := h
  rcases step_cases hstep with ⟨task, hrun, hmove⟩ | ⟨ended, pending, stack, -, hpending, rfl⟩
  · rw [hrun] at hcontrol
    obtain ⟨hgoes, hgood⟩ := goes_begin host s.calls s.ctx hs henv hclosed task hcontrol
    rcases hbegin : begin host env s.calls s.ctx s.world task with
      ⟨w, control | ⟨pending, calls', ctx', inner⟩⟩
    · rw [hbegin] at hmove hgoes hgood
      subst hmove
      exact ⟨hgoes, hgoes.closed hs hclosed, hgood, hstack⟩
    · rw [hbegin] at hmove hgoes hgood
      subst hmove
      refine ⟨hgoes, hgoes.closed hs hclosed, hgood.2, fun other hother => ?_⟩
      rcases List.mem_cons.1 hother with rfl | hother
      · exact hgood.1
      · exact hstack other hother
  · rw [hpending] at hstack
    obtain ⟨hgoes, hgood⟩ := goes_resume hclosed (hstack pending List.mem_cons_self) ended
    exact ⟨hgoes, hgoes.closed hs hclosed, hgood,
      fun other hother => hstack other (List.mem_cons_of_mem _ hother)⟩

theorem goes_of_reaches (hs : Memory.Storable stores) (henv : env.Stores stores) {s t : State}
    (h : s.Good stores) (hreaches : Reaches host env s t) :
    s.world.Goes stores t.world ∧ t.Good stores := by
  induction hreaches with
  | refl => exact ⟨.refl _, h⟩
  | tail _ hstep ih =>
    obtain ⟨hgoes, hgood⟩ := ih
    obtain ⟨hgoes', hgood'⟩ := goes_step hs henv hgood hstep
    exact ⟨hgoes.trans hgoes', hgood'⟩

theorem goes_task (hs : Memory.Storable stores) (henv : env.Stores stores) (hw : w.memory.Closed)
    {task : Task} (h : task.Good stores w.memory) :
    w.Goes stores (result host (task.run env calls ctx) w).1 := by
  have hgood : State.Good stores ⟨calls, ctx, .run task, [], w⟩ :=
    ⟨hw, h, fun _ hpending => absurd hpending List.not_mem_nil⟩
  exact (goes_of_reaches hs henv hgood (reaches_task calls ctx task [] w)).1

end

end Machine

/-! ## Invocations -/

/-- What a script puts into the store is of a kind. -/
def Script.Stores (stores : Memory → Value → Prop) (script : Script) : Prop :=
  ∀ s ∈ walkAll script.statements, s.clause.Stores stores

namespace Run

open Machine

section

variable {stores : Memory → Value → Prop} {host : Host} {w : World} {config : Config} {script ctx : Nat}

theorem stores_of_getElem? {program : Script} (h : program.Stores stores) {n : Nat} {s : Statement}
    (hs : (walkAll program.statements)[n]? = some s) : s.Stores stores := by
  intro t ht
  obtain ⟨rest, hdrop⟩ := drop_walkAll hs
  refine h t (List.mem_of_mem_drop (i := n) ?_)
  rw [hdrop]
  exact List.mem_append_left _ ht

theorem stores_of_script {env : Invocation} {program : Script} (h : program.Stores stores)
    (hfunctions : env.functions = program.functions) : env.Stores stores := by
  intro name node function hget
  exact stores_of_getElem? h (functionsPlaced env hfunctions name node function hget)

theorem storesAll_chosen {program : Script} (h : program.Stores stores) (selection : Selection) :
    StoresAll stores (chosen selection program.statements) :=
  fun p hp => stores_of_getElem? h (allPlaced_chosen selection program.statements p hp)

theorem goes_finish (script ctx : Nat) (outcome : Outcome) (w : World) :
    w.Goes stores (result host (finish script ctx outcome) w).1 := by
  unfold finish
  rw [result_bind_ok (result_look w)]
  cases outcome <;> exact World.goes_of_eq rfl

theorem goes_invocation (task : Machine.Task) (hs : Memory.Storable stores) (hw : w.memory.Closed)
    (h : (w.script script).Stores stores) (htask : task.Good stores w.memory)
    {run : Invocation → Run Outcome} (hrun : ∀ env, task.run env 0 ctx = plainly (run env)) :
    w.Goes stores
      (result host (invocation config script >>= fun env => run env >>= finish script ctx) w).1 := by
  have hinvocation := result_invocation host config script w
  cases hbudget : config.maxExecutionTime? with
  | none =>
    rw [hbudget] at hinvocation
    rw [result_bind_error hinvocation]
    exact .refl w
  | some budget =>
    rw [hbudget] at hinvocation
    rw [result_bind_ok hinvocation]
    generalize henv : (⟨script, config, (w.script script).functions, w.clock + budget⟩ : Invocation) = env
    have hstores : env.Stores stores := by
      rw [← henv]
      exact stores_of_script h rfl
    have hgoes : w.Goes stores (result host (task.run env 0 ctx) w).1 := goes_task hs hstores hw htask
    rw [hrun, result_plainly] at hgoes
    rw [result_bind]
    cases (result host (run env) w).2 with
    | ok outcome => exact hgoes.trans (goes_finish script ctx outcome _)
    | error fault => exact hgoes

theorem goes_execute (host : Host) (config : Config) (ctx : Nat) (selection : Selection)
    (hs : Memory.Storable stores) (hw : w.memory.Closed) (h : (w.script script).Stores stores) :
    w.Goes stores (result host (Run.execute config script ctx selection) w).1 := by
  by_cases henabled : (w.script script).enabled = true
  · rw [result_execute host config script ctx selection henabled]
    simp only [selected_eq]
    exact goes_invocation (.block true none (chosen selection (w.script script).statements)) hs hw h
      (storesAll_chosen h selection) fun _ => rfl
  · rw [result_execute_of_disabled host config ctx selection (Bool.eq_false_iff.2 henabled)]
    exact .refl w

theorem goes_callFunction (host : Host) (config : Config) (ctx : Nat) (name : String)
    (hs : Memory.Storable stores) (hw : w.memory.Closed) (h : (w.script script).Stores stores)
    {values : List Value} (hvalues : ∀ value ∈ values, w.memory.lists.Has value) :
    w.Goes stores (result host (Run.callFunction config script ctx name values) w).1 := by
  rw [result_callFunction]
  exact goes_invocation (.call name values) hs hw h hvalues fun _ => rfl

end

end Run

end EventScript
