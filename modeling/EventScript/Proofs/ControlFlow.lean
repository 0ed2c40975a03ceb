import EventScript.Proofs.FrameLaw

/-!
Breaks, continues and returns stay where they belong.

A break or a continue ends with the innermost loop around it, and no later than with the body of the function
or the run that it is in. A return ends its frame, and the caller of a function sees a success.

Main facts:
* `isJump_loop`, `isJump_function`: loops and bodies of functions do not end with a break or a continue;
* `endsCall_call`: how a call ends;
* `settled_statement`, `settled_execute`, `settled_callFunction`: the laws of statements and of invocations;
* `control_flow_contained`: all of them together.
-/

namespace EventScript.Machine

set_option autoImplicit false

open Statement Run

variable {host : Host} {env : Invocation} {calls ctx : Nat}

/-! ## Breaks and continues -/

/-- Whether an outcome is a break or a continue. -/
def isJump : Outcome → Bool
  | .broke | .continued => true
  | _ => false

theorem isJump_settled {ended : Ended} (h : ∀ outcome taken, ended = .ok (outcome, taken) → isJump outcome = false)
    (line : Int) : isJump (settled line ended).1 = false := by
  rcases ended with fault | ⟨outcome, taken⟩
  · rfl
  · have hjump := h outcome taken rfl
    cases outcome with
    | error message fault line' => cases line' <;> rfl
    | broke | continued => cases hjump
    | _ => rfl

theorem isJump_runPasses (each : Passes) (body : Run Outcome) (more n : Nat) :
    Returns host (runPasses ctx each body more n) fun outcome => isJump outcome = false := by
  induction more generalizing n with
  | zero =>
    unfold runPasses
    refine returns_bind fun found => ?_
    cases found with
    | none => exact returns_pure rfl
    | some bindings => exact returns_pure rfl
  | succ more ih =>
    unfold runPasses
    refine returns_bind fun found => ?_
    cases found with
    | none => exact returns_pure rfl
    | some bindings =>
      refine returns_bind fun _ => returns_bind fun outcome => ?_
      cases outcome with
      | success message payload => exact ih (n + 1)
      | continued => exact ih (n + 1)
      | _ => exact returns_pure rfl

theorem isJump_runLoop (source : LoopSource) (argument : String) (body : Run Outcome) :
    Returns host (runLoop env ctx source argument body) fun outcome => isJump outcome = false := by
  unfold runLoop
  cases passesOf ctx source argument with
  | none => exact returns_pure rfl
  | some header =>
    refine returns_bind fun _ => ?_
    intro w outcome houtcome
    unfold Run.changeContext at houtcome
    rw [result_closingWith] at houtcome
    have hpasses : Returns host
        (header >>= fun each => runPasses ctx each body env.config.maxLoopIterations.toNat 0)
        fun outcome => isJump outcome = false := returns_bind fun each => isJump_runPasses each body _ 0
    exact hpasses w outcome houtcome

theorem isJump_of_ended_whole {outcome : Outcome} (h : outcome = .done ∨ endsWhen true outcome = true) :
    isJump outcome = false := by
  rcases h with rfl | hends
  · rfl
  · cases outcome with
    | broke | continued => cases hends
    | _ => rfl

/-! ## Statements -/

variable (host env) in
theorem exists_closed (calls ctx node : Nat) (s : Statement) (w : World) :
    ∃ w' ended w'',
      result host ((Task.inside node s).run env calls ctx) (w.note (.started env.script node ctx w.clock)) =
        (w', ended) ∧
      result host ((Task.statement node s).run env calls ctx) w = (w'', .ok (settled s.line ended)) ∧
      w''.journal = .ended env.script node ctx (settled s.line ended).1 :: w'.journal :=
  ⟨_, _, _, rfl, result_statement calls ctx node s w, rfl⟩

theorem isJump_loop {node : Nat} {s : Statement} (hkind : s.clause.kind = .loop) {w w' : World}
    {outcome : Outcome} {taken : Option Bool}
    (h : result host ((Task.inside node s).run env calls ctx) w = (w', .ok (outcome, taken))) :
    isJump outcome = false := by
  cases hclause : s.clause with
  | loop word source argument =>
    rw [run_inside, hclause] at h
    have hloop := result_of_plainly h
    exact isJump_runLoop source argument _ w outcome (congrArg Prod.snd hloop)
  | _ =>
    rw [hclause] at hkind
    cases hkind

theorem isJump_function {function : Statement} (hkind : function.clause.kind = .function) {node : Nat}
    {w w' : World} {outcome : Outcome} {taken : Option Bool}
    (h : result host ((Task.inside node function).run env calls ctx) w = (w', .ok (outcome, taken))) :
    isJump outcome = false := by
  cases hclause : function.clause with
  | function name parameters =>
    have hblock : (Task.inside node function).run env calls ctx =
        (Task.block true none (bodyOf node function)).run env calls ctx := by
      rw [run_inside, hclause]
      rfl
    obtain ⟨w'', last, hlast, hends⟩ :=
      exists_ok_block host env calls ctx true none (bodyOf node function) w
    rw [hblock, hlast] at h
    cases h
    exact isJump_of_ended_whole hends
  | _ =>
    rw [hclause] at hkind
    cases hkind

/-- Every statement that is called is the definition of a function. -/
def FunctionsDefined (env : Invocation) : Prop :=
  ∀ name node function, env.functions.get? name = some (node, function) → function.clause.kind = .function

theorem functionsDefined_of_script {script : Script} (h : env.functions = script.functions) :
    FunctionsDefined env := by
  intro name node function hget
  rw [h] at hget
  obtain ⟨⟨n, s⟩, -, hsome⟩ := List.mem_filterMap.1 (Dict.mem_of_get?_ofList hget)
  dsimp only at hsome
  split at hsome
  · rename_i hclause
    cases hsome
    rw [hclause]
    rfl
  · cases hsome

theorem journal_leaveFunction (caller child : Nat) (w : World) :
    (leaveFunction caller child w).journal = w.journal := by
  unfold leaveFunction
  split <;> rfl

theorem isJump_forCaller (outcome : Outcome) : isJump outcome.forCaller = isJump outcome := by
  cases outcome <;> rfl

/-- A call ends with success, an error or a cancelled event, and a return in the function is its success. The
function has the first of the new contexts. -/
def EndsCall (script : Nat) (w : World) (ended : World × Ended) : Prop :=
  ∃ events, ended.1.journal = events ++ w.journal ∧
    (∀ outcome taken, ended.2 = .ok (outcome, taken) → isJump outcome = false) ∧ NotReturned ended.2 ∧
    SettledByReturn script w.memory.contexts.size events
      fun value => ended.2 = .ok (.success none value, none)

section

variable {script : Nat} {w w' : World} {ended : World × Ended}

theorem exists_of_quiet (h : Quiet w w') :
    ∃ events, w'.journal = events ++ w.journal ∧ w'.memory.contexts.size = w.memory.contexts.size ∧
      ∀ event ∈ events, ∀ script ctx value, ¬ IsReturn script ctx value event := by
  obtain ⟨events, hjournal, hquiet, hsize⟩ := h
  refine ⟨events, hjournal, hsize, ?_⟩
  rintro event hevent script ctx value ⟨node, heq⟩
  exact hquiet event hevent script node ctx _ heq

theorem EndsCall.after (h : Quiet w w') (hcall : EndsCall script w' ended) : EndsCall script w ended := by
  obtain ⟨before, hbefore, hsize, hnone⟩ := exists_of_quiet h
  obtain ⟨events, hjournal, hjump, hne, hsettled⟩ := hcall
  rw [hsize] at hsettled
  refine ⟨events ++ before, by rw [hjournal, hbefore, List.append_assoc], hjump, hne, hsettled.append ?_⟩
  intro event hevent
  exact hnone event hevent script _

theorem endsCall_failed (text : String) : EndsCall script w (w, .ok (.failed text, none)) := by
  refine ⟨[], rfl, ?_, notReturned_ok (fun _ heq => by cases heq) none, settledByReturn_of_none (by simp)⟩
  intro outcome taken heq
  cases heq
  rfl

theorem endsCall_fault (fault : Fault) : EndsCall script w (w, .error fault) := by
  refine ⟨[], rfl, ?_, notReturned_error fault, settledByReturn_of_none (by simp)⟩
  intro outcome taken heq
  cases heq

end

theorem endsCall_call (hdefined : FunctionsDefined env) (name : String) (values : List Value) (w : World) :
    EndsCall env.script w (result host ((Task.call name values).run env calls ctx) w) := by
  rw [result_call]
  unfold beginFunction
  split
  · split
    · exact endsCall_failed _
    · rename_i node function hget
      have hsize := size_enterFunction ctx function values w
      have hchild : w.memory.contexts.size < (enterFunction ctx function values w).memory.contexts.size := by
        omega
      have hfair : Task.Fair host (.statement node function) := trivial
      have hlaw := lawful_task env (calls + 1) hfair hchild
      obtain ⟨w₁, ended, w₂, hinside, hended, -⟩ := exists_closed host env (calls + 1)
        w.memory.contexts.size node function (enterFunction ctx function values w)
      rw [hended] at hlaw
      obtain ⟨events, hjournal, hsettled⟩ := settledByReturn_of_lawful hchild hlaw
      have hjump : isJump (settled function.line ended).1 = false := by
        apply isJump_settled
        rintro outcome taken rfl
        exact isJump_function (hdefined name node function hget) hinside
      generalize settled function.line ended = last at hended hsettled hjump
      obtain ⟨outcome, taken⟩ := last
      simp only [Move.settle, hended]
      refine ⟨events, ?_, ?_, notReturned_ok (ne_returned_forCaller outcome) none, hsettled.mono ?_⟩
      · exact (journal_leaveFunction ctx w.memory.contexts.size w₂).trans hjournal
      · intro outcome' taken' heq
        cases heq
        rw [isJump_forCaller, hjump]
      · rintro value ⟨taken', heq⟩
        cases heq
        rfl
  · exact endsCall_failed _

theorem endsCall_inside (hdefined : FunctionsDefined env) {node : Nat} {s : Statement}
    (hkind : s.clause.kind = .call) (w : World) :
    EndsCall env.script w (result host ((Task.inside node s).run env calls ctx) w) := by
  cases hclause : s.clause with
  | call name arguments =>
    have hquiet : Quiet w (result host (Run.access (arguments.mapM (evaluate ctx))) w).1 :=
      quietFrame.access _ w
    rw [result_inside]
    unfold beginInside
    rw [hclause]
    dsimp only
    unfold beginCall
    split
    · rcases hvalues : result host (Run.access (arguments.mapM (evaluate ctx))) w with ⟨w', fault | values⟩
      · rw [hvalues] at hquiet
        exact (endsCall_fault fault).after hquiet
      · rw [hvalues] at hquiet
        exact (endsCall_call hdefined name values w').after hquiet
    · exact endsCall_failed _
  | _ =>
    rw [hclause] at hkind
    cases hkind

/-- Statements keep the law of their frame. A break or a continue ends with the loop around it, and both end,
as a return does, with a call. -/
theorem settled_statement (hdefined : FunctionsDefined env) (calls node : Nat) (s : Statement) {w : World}
    (hctx : ctx < w.memory.contexts.size) :
    ∃ w' outcome taken events,
      result host ((Task.statement node s).run env calls ctx) w = (w', .ok (outcome, taken)) ∧
      w'.journal = .ended env.script node ctx outcome :: (events ++ w.journal) ∧
      SettledByReturn env.script ctx (.ended env.script node ctx outcome :: events)
        (fun value => outcome = .returned value) ∧
      (s.clause.kind = .loop → isJump outcome = false) ∧
      (s.clause.kind = .call → isJump outcome = false ∧ (∀ value, outcome ≠ .returned value) ∧
        SettledByReturn env.script w.memory.contexts.size events
          fun value => outcome = .success none value) := by
  have hstarted : Quiet w (w.note (.started env.script node ctx w.clock)) := quiet_note w (by simp)
  obtain ⟨w', ended, w'', hinside, hstatement, hclosed⟩ := exists_closed host env calls ctx node s w
  have hevents : ∃ events, w'.journal = events ++ w.journal := by
    have hfair : Task.Fair host (.inside node s) := trivial
    have hsize : ctx < (w.note (.started env.script node ctx w.clock)).memory.contexts.size := hctx
    have hlaw := lawful_task env calls hfair hsize
    rw [hinside] at hlaw
    obtain ⟨events, hjournal⟩ := hlaw.exists_events
    exact ⟨events ++ [.started env.script node ctx w.clock], by rw [hjournal]; simp [World.note]⟩
  obtain ⟨events, hjournal⟩ := hevents
  rw [hjournal] at hclosed
  refine ⟨w'', (settled s.line ended).1, (settled s.line ended).2, events, hstatement, hclosed, ?_,
    fun hkind => ?_, fun hkind => ?_⟩
  · have hfair : Task.Fair host (.statement node s) := trivial
    have hlaw := lawful_task env calls hfair hctx
    rw [hstatement] at hlaw
    obtain ⟨all, hall, hsettled⟩ := settledByReturn_of_lawful hctx hlaw
    rw [hclosed, ← List.cons_append] at hall
    rw [List.append_cancel_right hall]
    refine hsettled.mono ?_
    rintro value ⟨taken, heq⟩
    rw [Except.ok.inj heq]
  · apply isJump_settled
    rintro outcome taken rfl
    exact isJump_loop hkind hinside
  · have hcall : EndsCall env.script w (w', ended) := by
      rw [← hinside]
      exact (endsCall_inside hdefined hkind _).after hstarted
    obtain ⟨all, hall, hjump, hne, hsettled⟩ := hcall
    rw [List.append_cancel_right (hjournal.symm.trans hall)]
    refine ⟨isJump_settled hjump s.line, ne_returned_settled hne s.line, hsettled.mono ?_⟩
    rintro value rfl
    rfl

/-! ## Invocations -/

theorem isJump_finished (cancelled : Bool) (outcome : Outcome) : isJump (finished cancelled outcome) = false := by
  cases outcome <;> cases cancelled <;> rfl

theorem ne_returned_finished {outcome : Outcome} (h : ∀ value, outcome ≠ .returned value) (cancelled : Bool)
    (value : Value) : finished cancelled outcome ≠ .returned value := by
  cases outcome with
  | returned payload => exact absurd rfl (h payload)
  | _ => cases cancelled <;> exact fun heq => by cases heq

theorem result_invocation_bind {α : Type} (config : Config) (script : Nat) (next : Invocation → Run α)
    (w : World) :
    (config.maxExecutionTime? = none ∧
      result host (invocation config script >>= next) w = (w, .error .quotientTooLarge)) ∨
    ∃ env : Invocation, env.script = script ∧ FunctionsDefined env ∧
      result host (invocation config script >>= next) w = result host (next env) w := by
  have hinvocation := result_invocation host config script w
  cases hbudget : config.maxExecutionTime? with
  | none =>
    rw [hbudget] at hinvocation
    exact .inl ⟨rfl, result_bind_error hinvocation next⟩
  | some budget =>
    rw [hbudget] at hinvocation
    exact .inr ⟨_, rfl, functionsDefined_of_script rfl, result_bind_ok hinvocation next⟩

theorem settled_whole (statements : List (Nat × Statement)) {w : World} (hctx : ctx < w.memory.contexts.size) :
    ∃ w' outcome events,
      result host (runBlock env Outcome.endsFrame ctx none (readied env 0 statements)) w = (w', .ok outcome) ∧
      w'.journal = events ++ w.journal ∧
      SettledByReturn env.script ctx events fun value => outcome = .returned value := by
  have hfair : Task.Fair host (.block true none statements) := trivial
  have hlaw := lawful_task env 0 hfair hctx
  obtain ⟨w', outcome, hended, -⟩ := exists_ok_block host env 0 ctx true none statements w
  rw [hended] at hlaw
  obtain ⟨events, hjournal, hsettled⟩ := settledByReturn_of_lawful hctx hlaw
  refine ⟨w', outcome, events, result_of_plainly hended, hjournal, hsettled.mono ?_⟩
  rintro value ⟨taken, heq⟩
  cases heq
  rfl

theorem settled_execute (config : Config) (script : Nat) {w : World} (hctx : ctx < w.memory.contexts.size)
    (selection : Selection) :
    (config.maxExecutionTime? = none ∧
      result host (Run.execute config script ctx selection) w = (w, .error .quotientTooLarge)) ∨
    ∃ w' outcome events,
      result host (Run.execute config script ctx selection) w = (w', .ok outcome) ∧
      w'.journal = events ++ w.journal ∧ isJump outcome = false ∧
      SettledByReturn script ctx events fun value => outcome = .returned value := by
  by_cases henabled : (w.script script).enabled = true
  · rw [result_execute host config script ctx selection henabled]
    refine (result_invocation_bind config script _ w).imp_right ?_
    rintro ⟨env, rfl, -, hrun⟩
    rw [hrun, selected_eq]
    obtain ⟨w', outcome, events, hended, hjournal, hsettled⟩ :=
      settled_whole (chosen selection (w.script env.script).statements) hctx
    obtain ⟨w'', hfinish, hjournal', -⟩ := result_finish host env.script ctx outcome w'
    rw [result_bind_ok hended]
    refine ⟨w'', _, events, hfinish, hjournal'.trans hjournal, isJump_finished _ outcome, hsettled.mono ?_⟩
    rintro value rfl
    rfl
  · have hdisabled := result_execute_of_disabled host config ctx selection (Bool.eq_false_iff.2 henabled)
    exact .inr ⟨w, _, [], hdisabled, rfl, rfl, settledByReturn_of_none (by simp)⟩

theorem settled_callFunction (config : Config) (script ctx : Nat) (w : World) (name : String)
    (values : List Value) :
    (config.maxExecutionTime? = none ∧
      result host (Run.callFunction config script ctx name values) w = (w, .error .quotientTooLarge)) ∨
    ∃ w' outcome events,
      result host (Run.callFunction config script ctx name values) w = (w', .ok outcome) ∧
      w'.journal = events ++ w.journal ∧ isJump outcome = false ∧ (∀ value, outcome ≠ .returned value) ∧
      SettledByReturn script w.memory.contexts.size events fun value =>
        outcome = if (w'.memory.context ctx).cancelled then .cancelled else .success none value := by
  rw [result_callFunction]
  refine (result_invocation_bind config script _ w).imp_right ?_
  rintro ⟨env, rfl, hdefined, hrun⟩
  rw [hrun]
  obtain ⟨w', outcome, hended⟩ := exists_ok_call host env 0 ctx name values w
  have hcall : EndsCall env.script w (w', .ok (outcome, none)) := by
    rw [← hended]
    exact endsCall_call hdefined name values w
  obtain ⟨events, hjournal, -, hne, hsettled⟩ := hcall
  obtain ⟨w'', hfinish, hjournal', hmemory⟩ := result_finish host env.script ctx outcome w'
  have hinvoke : result host (invoke env maxCallDepth name values ctx) w = (w', .ok outcome) :=
    result_of_plainly hended
  rw [result_bind_ok hinvoke]
  refine ⟨w'', _, events, hfinish, hjournal'.trans hjournal, isJump_finished _ outcome,
    ne_returned_finished (ne_returned_of_notReturned hne) _, hsettled.mono ?_⟩
  intro value heq
  cases heq
  rw [hmemory]
  rfl

/-- Executing a script never ends with a break or a continue, and neither does a loop; a call, and calling a
function of a script, does not end with a return either. Once a statement has ended with a return, nothing
more happens in its frame but that the statements around it end with this return. It is what the execution
ends with, and its value is that of the call. -/
theorem control_flow_contained (host : Host) (config : Config) (script ctx : Nat) (w : World)
    (hctx : ctx < w.memory.contexts.size) :
    (∀ selection,
      (config.maxExecutionTime? = none ∧
        result host (Run.execute config script ctx selection) w = (w, .error .quotientTooLarge)) ∨
      ∃ w' outcome events,
        result host (Run.execute config script ctx selection) w = (w', .ok outcome) ∧
        w'.journal = events ++ w.journal ∧ isJump outcome = false ∧
        SettledByReturn script ctx events fun value => outcome = .returned value) ∧
    (∀ name values,
      (config.maxExecutionTime? = none ∧
        result host (Run.callFunction config script ctx name values) w = (w, .error .quotientTooLarge)) ∨
      ∃ w' outcome events,
        result host (Run.callFunction config script ctx name values) w = (w', .ok outcome) ∧
        w'.journal = events ++ w.journal ∧ isJump outcome = false ∧ (∀ value, outcome ≠ .returned value) ∧
        SettledByReturn script w.memory.contexts.size events fun value =>
          outcome = if (w'.memory.context ctx).cancelled then .cancelled else .success none value) ∧
    ∀ (program : Script) (deadline : Float) (calls node : Nat) (s : Statement),
      ∃ w' outcome taken events,
        result host ((Task.statement node s).run ⟨script, config, program.functions, deadline⟩ calls ctx) w =
          (w', .ok (outcome, taken)) ∧
        w'.journal = .ended script node ctx outcome :: (events ++ w.journal) ∧
        SettledByReturn script ctx (.ended script node ctx outcome :: events)
          (fun value => outcome = .returned value) ∧
        (s.clause.kind = .loop → isJump outcome = false) ∧
        (s.clause.kind = .call → isJump outcome = false ∧ (∀ value, outcome ≠ .returned value) ∧
          SettledByReturn script w.memory.contexts.size events
            fun value => outcome = .success none value) := by
  refine ⟨settled_execute config script hctx, settled_callFunction config script ctx w, ?_⟩
  intro program deadline calls node s
  have hdefined : FunctionsDefined ⟨script, config, program.functions, deadline⟩ :=
    functionsDefined_of_script rfl
  exact settled_statement hdefined calls node s hctx

/-- A script whose loop calls a function that returns from inside a loop, before a broadcast; when it comes to
the function itself, its body is run as well. -/
def returningScript : Script where
  name := "returning"
  source := "loop 2 times:\n  call f()\nfunction f():\n  loop 3 times:\n    return 7\n  broadcast \"x\"\n"
  statements := [
    ⟨.loop .loop .times "2", "loop 2 times:", 1, 0, {}, [⟨.call "f" [], "call f()", 2, 1, {}, []⟩]⟩,
    ⟨.function "f" [], "function f():", 3, 0, {}, [
      ⟨.loop .loop .times "3", "loop 3 times:", 4, 1, {}, [
        ⟨.returnValue (some "7"), "return 7", 5, 2, {}, []⟩]⟩,
      ⟨.broadcast "x", "broadcast \"x\"", 6, 1, {}, []⟩]⟩]

theorem control_flow_contained_of_returns :
    let w : World := { scripts := ⟨#[returningScript]⟩, memory := { contexts := ⟨#[{}]⟩ } }
    0 < w.memory.contexts.size ∧
    (∃ w' events,
      result (Roster.host {}) (Run.execute {} 0 0 .all) w = (w', .ok (.returned (.int 7))) ∧
      w'.journal = events ++ w.journal ∧ .ended 0 4 0 (.returned (.int 7)) ∈ w'.journal ∧
      SettledByReturn 0 0 events fun value => Outcome.returned (.int 7) = .returned value) ∧
    ∃ w' events,
      result (Roster.host {}) (Run.callFunction {} 0 0 "f" []) w = (w', .ok (.success none (.int 7))) ∧
      w'.journal = events ++ w.journal ∧ .ended 0 4 1 (.returned (.int 7)) ∈ w'.journal ∧
      SettledByReturn 0 1 events fun value => Outcome.success none (.int 7) =
        if (w'.memory.context 0).cancelled then .cancelled else .success none value := by
  intro w
  have hctx : 0 < w.memory.contexts.size := by decide
  have hbudget : ({} : Config).maxExecutionTime? ≠ none := by decide +kernel
  have hexecuted : (result (Roster.host {}) (Run.execute {} 0 0 .all) w).2 = .ok (.returned (.int 7)) ∧
      .ended 0 4 0 (.returned (.int 7)) ∈ (result (Roster.host {}) (Run.execute {} 0 0 .all) w).1.journal := by
    decide +kernel
  have hcalled : (result (Roster.host {}) (Run.callFunction {} 0 0 "f" []) w).2 =
        .ok (.success none (.int 7)) ∧
      .ended 0 4 1 (.returned (.int 7)) ∈
        (result (Roster.host {}) (Run.callFunction {} 0 0 "f" []) w).1.journal := by
    decide +kernel
  obtain ⟨hexecute, hcall, -⟩ := control_flow_contained (Roster.host {}) {} 0 0 w hctx
  refine ⟨hctx, ?_, ?_⟩
  · rcases hexecute .all with ⟨hnone, -⟩ | ⟨w', outcome, events, hended, hjournal, -, hsettled⟩
    · exact absurd hnone hbudget
    · rw [hended] at hexecuted
      obtain ⟨houtcome, hreturn⟩ := hexecuted
      cases houtcome
      exact ⟨w', events, hended, hjournal, hreturn, hsettled⟩
  · rcases hcall "f" [] with ⟨hnone, -⟩ | ⟨w', outcome, events, hended, hjournal, -, -, hsettled⟩
    · exact absurd hnone hbudget
    · rw [hended] at hcalled
      obtain ⟨houtcome, hreturn⟩ := hcalled
      cases houtcome
      exact ⟨w', events, hended, hjournal, hreturn, hsettled⟩

end EventScript.Machine
